import Cube.Eco.Codec.Sha1

/-! # Runs of a SHA-1 object

What an object has taken since the last `Reset` is a message, until the digest is computed. Input
behind the digest, or more bits than the length can count, spoil the object up to the next `Reset`.
Over any sequence of calls the object answers with the digest of the message.
-/

namespace Cube.Eco.SHA1

/-! ## The message block -/

/-- The message block begins with the octets that were taken since the last whole block. -/
structure Holds (sha : SHA1) (pending : List UInt8) : Prop where
  begins : pending <+: sha.messageBlock
  size : sha.messageBlock.length = 64
  index : sha.messageBlockIndex = pending.length

/-- Another message block, filled up to another index. -/
def withBlock (sha : SHA1) (block : List UInt8) (index : Nat) : SHA1 :=
  { sha with messageBlock := block, messageBlockIndex := index }

@[simp] theorem withBlock_withBlock (sha : SHA1) (first second : List UInt8) (i j : Nat) :
    (sha.withBlock first i).withBlock second j = sha.withBlock second j := rfl

variable {sha : SHA1} {pending : List UInt8}

theorem Holds.put (holds : Holds sha pending) (room : pending.length < 64) (octet : UInt8) :
    ∃ block, sha.put octet = .ok (sha.withBlock block (pending.length + 1)) ∧
      Holds (sha.withBlock block (pending.length + 1)) (pending ++ [octet]) := by
  obtain ⟨rest, same⟩ := holds.begins
  have size := holds.size
  rw [← same, List.length_append] at size
  obtain ⟨old, back, split⟩ := List.exists_cons_of_length_pos (l := rest) (by omega)
  have written : (Buffer.write sha.messageBlock sha.messageBlockIndex octet : Outcome Empty _) =
      .ok (pending ++ octet :: back) := by
    rw [← same, split]
    exact Buffer.write_append holds.index
  refine ⟨pending ++ octet :: back, ?_, ⟨back, ?_⟩, ?_, ?_⟩
  · rw [SHA1.put, written, Outcome.ok_bind, holds.index]
    rfl
  · rw [List.append_assoc]
    rfl
  · rw [split, List.length_cons] at size
    change (pending ++ octet :: back).length = 64
    rw [List.length_append, List.length_cons, size]
  · rw [List.length_append]
    rfl

theorem Holds.putZeros (holds : Holds sha pending) (count : Nat)
    (room : pending.length + count ≤ 64) :
    ∃ block, putZeros count sha = .ok (sha.withBlock block (pending.length + count)) ∧
      Holds (sha.withBlock block (pending.length + count))
        (pending ++ List.replicate count 0) := by
  induction count generalizing sha pending with
  | zero =>
      refine ⟨sha.messageBlock, ?_, ?_⟩
      · rw [SHA1.putZeros, Nat.add_zero, ← holds.index]
        rfl
      · rw [List.replicate_zero, List.append_nil, Nat.add_zero, ← holds.index]
        exact holds
  | succ count ih =>
      obtain ⟨block, put, held⟩ := holds.put (by omega) 0
      have length : (pending ++ [(0 : UInt8)]).length = pending.length + 1 := by
        rw [List.length_append]
        rfl
      obtain ⟨filled, zeros, full⟩ := ih held (by omega)
      have sum : (pending ++ [(0 : UInt8)]).length + count = pending.length + (count + 1) := by
        omega
      rw [sum, withBlock_withBlock] at zeros full
      refine ⟨filled, ?_, ?_⟩
      · rw [SHA1.putZeros, put, Outcome.ok_bind, zeros]
      · rwa [List.append_assoc, List.singleton_append, ← List.replicate_succ] at full

/-- The loops of the padding fill the block with zeros up to a bound. -/
theorem Holds.zerosTo (holds : Holds sha pending) (bound : Nat) (low : pending.length ≤ bound)
    (room : bound ≤ 64) :
    ∃ block, sha.zerosTo bound = .ok (sha.withBlock block bound) ∧
      Holds (sha.withBlock block bound)
        (pending ++ List.replicate (bound - pending.length) 0) := by
  have sum : pending.length + (bound - pending.length) = bound := Nat.add_sub_cancel' low
  obtain ⟨block, zeros, held⟩ := holds.putZeros (bound - pending.length) (by omega)
  rw [sum] at zeros held
  refine ⟨block, ?_, held⟩
  rw [SHA1.zerosTo, holds.index, zeros]

/-- A full block is compressed. -/
theorem Holds.processMessageBlock (holds : Holds sha pending) (full : pending.length = 64) :
    sha.processMessageBlock =
      { sha.withBlock pending 0 with h := compress sha.h pending } := by
  have same : pending = sha.messageBlock :=
    holds.begins.eq_of_length (full.trans holds.size.symm)
  rw [SHA1.processMessageBlock, ← same, digestBlock_eq full]
  rw [same]
  rfl

theorem holds_nil {sha : SHA1} (size : sha.messageBlock.length = 64)
    (index : sha.messageBlockIndex = 0) : Holds sha [] :=
  ⟨List.nil_prefix, size, index⟩

/-! ## The padding -/

/-- The length that an object has counted, in bits. -/
def bits (sha : SHA1) : Nat := sha.lengthHigh.toNat * 2 ^ 32 + sha.lengthLow.toNat

theorem octet_eq (word shift : UInt32) :
    (word >>> shift &&& 0xFF).toUInt8 = UInt8.ofNat (word.toNat >>> (shift.toNat % 32)) := by
  rw [← UInt8.toNat_inj, UInt32.toNat_toUInt8, UInt32.toNat_and, UInt32.toNat_shiftRight,
    UInt8.toNat_ofNat']
  exact (Nat.and_two_pow_sub_one_eq_mod _ 8).symm ▸ Nat.mod_mod ..

theorem lengthOctets_eq (sha : SHA1) : sha.lengthOctets = BigEndian.encode 8 sha.bits := by
  have four (word : UInt32) : [(word >>> 24 &&& 0xFF).toUInt8, (word >>> 16 &&& 0xFF).toUInt8,
      (word >>> 8 &&& 0xFF).toUInt8, (word &&& 0xFF).toUInt8] = BigEndian.encode 4 word.toNat := by
    have last : (word &&& 0xFF).toUInt8 = (word >>> 0 &&& 0xFF).toUInt8 := by
      rw [UInt32.shiftRight_zero]
    rw [last, octet_eq, octet_eq, octet_eq, octet_eq]
    simp only [BigEndian.encode, Nat.shiftRight_eq_div_pow]
    rfl
  have low : sha.lengthLow.toNat < 256 ^ 4 := sha.lengthLow.toNat_lt
  have high : sha.lengthHigh.toNat < 256 ^ 4 := sha.lengthHigh.toNat_lt
  have joined : sha.lengthOctets =
      BigEndian.encode 4 sha.lengthHigh.toNat ++ BigEndian.encode 4 sha.lengthLow.toNat := by
    rw [← four, ← four]
    rfl
  have number : BigEndian.decode sha.lengthOctets = sha.bits := by
    rw [joined, BigEndian.decode_append, BigEndian.decode_encode_of_lt high,
      BigEndian.decode_encode_of_lt low, BigEndian.length_encode]
    rfl
  rw [← number]
  exact (BigEndian.encode_decode sha.lengthOctets).symm

/-- The last block with the tail that is still missing. -/
theorem Holds.padBlock (holds : Holds sha pending) (room : pending.length < 64) :
    ∃ block h front, sha.padBlock = .ok { sha.withBlock block 56 with h := h } ∧
      Holds { sha.withBlock block 56 with h := h } front ∧ front.length = 56 ∧
      ∀ tail : List UInt8, tail.length = 8 →
        BlockHash.fold compress 64 sha.h (pending ++ (0x80 ::
          List.replicate (BlockHash.zerosFor 64 (pending.length + 9)) 0 ++ tail)) =
            compress h (front ++ tail) := by
  obtain ⟨first, put, held⟩ := holds.put room 0x80
  have length : (pending ++ [(0x80 : UInt8)]).length = pending.length + 1 := by
    rw [List.length_append]
    rfl
  have one (h : Words) {block : List UInt8} (whole : block.length = 64) :
      BlockHash.fold compress 64 h block = compress h block := by
    have folded := @BlockHash.fold_block _ _ compress 64 h _ (by decide) whole []
    rwa [List.append_nil, BlockHash.fold_nil (by decide)] at folded
  by_cases large : sha.messageBlockIndex > 55
  · -- the length does not fit behind the mark
    rw [holds.index] at large
    obtain ⟨second, zeros, full⟩ := held.zerosTo 64 (by omega) (Nat.le_refl _)
    rw [length] at full
    let filled := pending ++ [0x80] ++ List.replicate (64 - (pending.length + 1)) (0 : UInt8)
    have whole : filled.length = 64 := by
      rw [List.length_append, List.length_replicate, length]
      omega
    have processed := full.processMessageBlock whole
    rw [withBlock_withBlock] at zeros processed
    have emptied : Holds { sha.withBlock filled 0 with h := compress sha.h filled } [] :=
      holds_nil whole rfl
    obtain ⟨block, last, begun⟩ := emptied.zerosTo 56 (by decide) (by decide)
    refine ⟨block, compress sha.h filled, List.replicate 56 0, ?_, begun, List.length_replicate,
      ?_⟩
    · rw [SHA1.padBlock, if_pos (holds.index ▸ large), put, Outcome.ok_bind, zeros, Outcome.ok_bind]
      exact (congrArg (SHA1.zerosTo 56) processed).trans last
    · intro tail eight
      have count : BlockHash.zerosFor 64 (pending.length + 9) =
          64 - (pending.length + 1) + 56 := by
        rw [BlockHash.zerosFor]
        omega
      have text : pending ++ (0x80 ::
          List.replicate (BlockHash.zerosFor 64 (pending.length + 9)) 0 ++ tail) =
            filled ++ (List.replicate 56 0 ++ tail) := by
        rw [count, List.replicate_add]
        simp only [filled, List.append_assoc, List.cons_append, List.nil_append]
      rw [text, BlockHash.fold_block (by decide) whole, one]
      rw [List.length_append, List.length_replicate, eight]
  · rw [holds.index] at large
    obtain ⟨block, zeros, begun⟩ := held.zerosTo 56 (by omega) (by decide)
    rw [length] at begun
    refine ⟨block, sha.h, pending ++ [0x80] ++ List.replicate (56 - (pending.length + 1)) 0, ?_,
      begun, ?_, ?_⟩
    · rw [SHA1.padBlock, if_neg (holds.index ▸ large), put, Outcome.ok_bind, zeros]
      rfl
    · rw [List.length_append, List.length_replicate, length]
      omega
    · intro tail eight
      have count : BlockHash.zerosFor 64 (pending.length + 9) = 56 - (pending.length + 1) := by
        rw [BlockHash.zerosFor]
        omega
      have text : pending ++ (0x80 ::
          List.replicate (BlockHash.zerosFor 64 (pending.length + 9)) 0 ++ tail) =
            pending ++ [0x80] ++ List.replicate (56 - (pending.length + 1)) 0 ++ tail := by
        rw [count]
        simp only [List.append_assoc, List.cons_append, List.nil_append]
      rw [text, one]
      rw [List.length_append, List.length_append, List.length_replicate, length, eight]
      omega

/-! ## What an object stands for -/

/-- What was done with an object since the last `Reset`. -/
inductive Phase where
  | absorbing (message : List UInt8)
  | computed (message : List UInt8)
  | corrupted

namespace Phase

/-- An octet spoils a computed digest, and a message of `2 ^ 64` bits. -/
def take : Phase → UInt8 → Phase
  | .absorbing message, octet =>
      if 8 * (message.length + 1) < 2 ^ 64 then .absorbing (message ++ [octet]) else .corrupted
  | .computed _, _ => .corrupted
  | .corrupted, _ => .corrupted

/-- The digest is that of the message, as long as there is one. -/
def answer : Phase → Option Words
  | .absorbing message => some (digest message)
  | .computed message => some (digest message)
  | .corrupted => none

/-- Asking for the digest ends the message. -/
def asked : Phase → Phase
  | .absorbing message => .computed message
  | phase => phase

theorem foldl_take_corrupted (octets : List UInt8) : octets.foldl take .corrupted = .corrupted := by
  induction octets with
  | nil => rfl
  | cons octet octets ih => exact ih

end Phase

/-- An object absorbs a message. -/
structure Absorbs (sha : SHA1) (message pending : List UInt8) : Prop where
  holds : Holds sha pending
  absorbed : BlockHash.Absorbed compress 64 initial message sha.h pending
  counted : sha.bits = 8 * message.length
  running : sha.computed = false
  sound : sha.corrupted = false

/-- An object stands for a phase. -/
def Represents (sha : SHA1) : Phase → Prop
  | .absorbing message => ∃ pending, Absorbs sha message pending
  | .computed message => sha.messageBlock.length = 64 ∧ sha.computed = true ∧
      sha.corrupted = false ∧ sha.h = digest message
  | .corrupted => sha.messageBlock.length = 64 ∧ sha.corrupted = true

theorem represents_reset {sha : SHA1} (size : sha.messageBlock.length = 64) :
    Represents sha.reset (.absorbing []) := by
  have absorbed : BlockHash.Absorbed compress 64 initial [] initial [] :=
    BlockHash.Absorbed.start (by decide)
  have counted : sha.reset.bits = 0 := by
    change 0 * 2 ^ 32 + 0 = 0
    rw [Nat.zero_mul]
  exact ⟨[], holds_nil size rfl, absorbed, counted, rfl, rfl⟩

theorem Represents.size {phase : Phase} (represents : Represents sha phase) :
    sha.messageBlock.length = 64 := by
  cases phase with
  | absorbing message => exact represents.choose_spec.holds.size
  | computed message => exact represents.1
  | corrupted => exact represents.1

/-! ## The calls -/

variable {message : List UInt8}

/-- The padding makes the digest of the message. -/
theorem Absorbs.padMessage (absorbs : Absorbs sha message pending) :
    ∃ block, sha.padMessage = .ok { sha.withBlock block 0 with h := digest message } ∧
      block.length = 64 := by
  obtain ⟨block, h, front, padded, held, length, folded⟩ :=
    absorbs.holds.padBlock absorbs.absorbed.partial_block
  have tail : sha.lengthOctets = lengthTail message := by
    rw [lengthOctets_eq, absorbs.counted]
    rfl
  have eight : (lengthTail message).length = 8 := BigEndian.length_encode 8 _
  obtain ⟨rest, same⟩ := held.begins
  have size := held.size
  have room : rest.length = (lengthTail message).length := by
    rw [← same, List.length_append, length] at size
    omega
  have patched : (Buffer.patch block 56 (lengthTail message) : Outcome Empty _) =
      .ok (front ++ lengthTail message) := by
    have whole : block = front ++ (rest ++ []) := by
      rw [List.append_nil]
      exact same.symm
    rw [whole, Buffer.patch_append length.symm room, List.append_nil]
  have full : (front ++ lengthTail message).length = 64 := by
    rw [List.length_append, length, eight]
  have mod : BlockHash.zerosFor 64 (message.length + 1 + (lengthTail message).length) =
      BlockHash.zerosFor 64 (pending.length + 9) := by
    obtain ⟨whole, split, multiple, _⟩ := absorbs.absorbed.parts
    rw [eight, split, List.length_append, Nat.add_assoc, Nat.add_assoc,
      BlockHash.zerosFor_add multiple]
  have final : compress h (front ++ lengthTail message) = digest message := by
    rw [← folded _ eight, digest, BlockHash.padded_eq, absorbs.absorbed.fold_close, mod]
  refine ⟨front ++ lengthTail message, ?_, full⟩
  rw [SHA1.padMessage, padded, Outcome.ok_bind]
  change (Buffer.patch block 56 sha.lengthOctets >>= _) = _
  rw [tail, patched, Outcome.ok_bind, ← final, ← digestBlock_eq full]
  rfl

/-- The count goes up by eight, unless it is at its end. -/
theorem countOctet_eq {sha : SHA1} (multiple : 8 ∣ sha.bits) :
    ∃ low high, sha.countOctet = { sha with
        lengthLow := low, lengthHigh := high
        corrupted := sha.corrupted || decide (2 ^ 64 ≤ sha.bits + 8) } ∧
      (sha.bits + 8 < 2 ^ 64 → high.toNat * 2 ^ 32 + low.toNat = sha.bits + 8) := by
  have low := sha.lengthLow.toNat_lt
  have high := sha.lengthHigh.toNat_lt
  have lowSum : (sha.lengthLow + 8).toNat = (sha.lengthLow.toNat + 8) % 2 ^ 32 :=
    UInt32.toNat_add ..
  have highSum : (sha.lengthHigh + 1).toNat = (sha.lengthHigh.toNat + 1) % 2 ^ 32 :=
    UInt32.toNat_add ..
  have lowZero : sha.lengthLow + 8 = 0 ↔ (sha.lengthLow.toNat + 8) % 2 ^ 32 = 0 := by
    rw [← UInt32.toNat_inj, lowSum]
    rfl
  have highZero : sha.lengthHigh + 1 = 0 ↔ (sha.lengthHigh.toNat + 1) % 2 ^ 32 = 0 := by
    rw [← UInt32.toNat_inj, highSum]
    rfl
  rw [bits] at multiple ⊢
  simp only [countOctet, and_ones]
  by_cases carry : sha.lengthLow + 8 = 0
  · rw [if_pos carry]
    have carried := lowZero.mp carry
    by_cases wrapped : sha.lengthHigh + 1 = 0
    · have overflowed := highZero.mp wrapped
      refine ⟨sha.lengthLow + 8, sha.lengthHigh + 1, ?_, fun fits => ?_⟩
      · rw [if_pos wrapped, decide_eq_true (by omega), Bool.or_true]
      · omega
    · have under := mt highZero.mpr wrapped
      refine ⟨sha.lengthLow + 8, sha.lengthHigh + 1, ?_, fun fits => ?_⟩
      · rw [if_neg wrapped, decide_eq_false (by omega), Bool.or_false]
      · rw [lowSum, highSum]
        omega
  · have uncarried := mt lowZero.mpr carry
    rw [if_neg carry]
    refine ⟨sha.lengthLow + 8, sha.lengthHigh, ?_, fun fits => ?_⟩
    · rw [decide_eq_false (by omega), Bool.or_false]
    · rw [lowSum]
      omega

theorem processFull_messageBlock (sha : SHA1) :
    sha.processFull.messageBlock = sha.messageBlock := by
  rw [processFull]
  split
  · rw [SHA1.processMessageBlock]
  · rfl

theorem processFull_corrupted (sha : SHA1) : sha.processFull.corrupted = sha.corrupted := by
  rw [processFull]
  split
  · rw [SHA1.processMessageBlock]
  · rfl

/-- **One octet.** The message is one octet longer, unless the count is at its end. -/
theorem Absorbs.octet (absorbs : Absorbs sha message pending) (octet : UInt8) :
    ∃ next, sha.put octet = .ok next ∧
      Represents next.countOctet.processFull ((Phase.absorbing message).take octet) := by
  obtain ⟨block, put, held⟩ := absorbs.holds.put absorbs.absorbed.partial_block octet
  refine ⟨_, put, ?_⟩
  have same : (sha.withBlock block (pending.length + 1)).bits = 8 * message.length := absorbs.counted
  obtain ⟨low, high, counted, sum⟩ := countOctet_eq (same ▸ Nat.dvd_mul_right ..)
  rw [same] at counted sum
  have further : Holds (sha.withBlock block (pending.length + 1)).countOctet
      (pending ++ [octet]) := by
    rw [counted]
    exact ⟨held.begins, held.size, held.index⟩
  have index : (sha.withBlock block (pending.length + 1)).countOctet.messageBlockIndex =
      pending.length + 1 := by
    rw [counted]
    rfl
  have spoilt : (sha.withBlock block (pending.length + 1)).countOctet.corrupted =
      decide (2 ^ 64 ≤ 8 * message.length + 8) := by
    rw [counted]
    change (sha.corrupted || _) = _
    rw [absorbs.sound, Bool.false_or]
  rw [Phase.take]
  by_cases fits : 8 * (message.length + 1) < 2 ^ 64
  · have sound : decide (2 ^ 64 ≤ 8 * message.length + 8) = false := decide_eq_false (by omega)
    rw [sound] at spoilt
    have bits : high.toNat * 2 ^ 32 + low.toNat = 8 * (message ++ [octet]).length := by
      rw [List.length_append, List.length_singleton, Nat.mul_add]
      exact sum (by omega)
    rw [if_pos fits]
    by_cases full : pending.length + 1 = 64
    · have whole : (pending ++ [octet]).length = 64 := by
        rw [List.length_append]
        exact full
      rw [processFull, if_pos (index.trans full), further.processMessageBlock whole, counted]
      refine ⟨[], holds_nil whole rfl, absorbs.absorbed.compress_full full, bits, absorbs.running,
        ?_⟩
      rw [counted] at spoilt
      exact spoilt
    · have room := absorbs.absorbed.partial_block
      rw [processFull, if_neg (by rwa [index])]
      rw [counted] at further spoilt ⊢
      exact ⟨pending ++ [octet], further, absorbs.absorbed.keep (by omega), bits, absorbs.running,
        spoilt⟩
  · rw [if_neg fits]
    refine ⟨(processFull_messageBlock _).symm ▸ further.size, ?_⟩
    rw [processFull_corrupted, spoilt]
    exact decide_eq_true (by omega)

theorem inputLoop_of_corrupted (spoilt : sha.corrupted = true) (length : Nat)
    (messageArray : List UInt8) : inputLoop length messageArray sha = .ok sha := by
  cases length with
  | zero => rfl
  | succ length => exact if_pos spoilt

/-- What has become of an object while octets are taken: it has not computed a digest. -/
theorem Phase.take_absorbing (message : List UInt8) (octet : UInt8) :
    (Phase.absorbing message).take octet = .absorbing (message ++ [octet]) ∨
      (Phase.absorbing message).take octet = .corrupted := by
  rw [Phase.take]
  split
  · exact .inl rfl
  · exact .inr rfl

/-- The loop of `Input` takes octet after octet. -/
theorem Absorbs.inputLoop (absorbs : Absorbs sha message pending) {length : Nat}
    {messageArray : List UInt8} (inside : length ≤ messageArray.length) :
    ∃ next, inputLoop length messageArray sha = .ok next ∧
      Represents next ((messageArray.take length).foldl Phase.take (.absorbing message)) := by
  induction length generalizing sha message pending messageArray with
  | zero => exact ⟨sha, rfl, pending, absorbs⟩
  | succ length ih =>
      obtain ⟨octet, rest, rfl⟩ := List.exists_cons_of_length_pos (Nat.lt_of_lt_of_le
        (Nat.succ_pos length) inside)
      obtain ⟨next, put, represents⟩ := absorbs.octet octet
      have running : ¬ sha.corrupted = true := by
        rw [absorbs.sound]
        exact Bool.false_ne_true
      have begun : SHA1.inputLoop (length + 1) (octet :: rest) sha =
          SHA1.inputLoop length rest next.countOctet.processFull := by
        rw [SHA1.inputLoop, if_neg running, octet_and_ones, put, Outcome.ok_bind]
      rw [begun, List.take_succ_cons, List.foldl_cons]
      rcases Phase.take_absorbing message octet with longer | spoilt
      · rw [longer] at represents ⊢
        obtain ⟨pending, absorbs⟩ := represents
        exact ih absorbs (Nat.le_of_succ_le_succ inside)
      · rw [spoilt] at represents ⊢
        rw [Phase.foldl_take_corrupted]
        exact ⟨_, inputLoop_of_corrupted represents.2 length rest, represents⟩

/-- **Input.** The octets of the array are taken, up to the length. -/
theorem Represents.input {phase : Phase} (represents : Represents sha phase)
    (messageArray : List UInt8) (length : UInt32)
    (inside : length.toNat ≤ messageArray.length) :
    ∃ next, sha.input messageArray length = .ok next ∧
      Represents next ((messageArray.take length.toNat).foldl Phase.take phase) := by
  by_cases empty : length = 0
  · refine ⟨sha, if_pos empty, ?_⟩
    rw [empty]
    exact represents
  · have positive : length.toNat ≠ 0 := fun zero => empty (UInt32.toNat_inj.mp zero)
    obtain ⟨octet, rest, some⟩ := List.exists_cons_of_length_pos
      (Nat.lt_of_lt_of_le (Nat.pos_of_ne_zero positive) inside)
    obtain ⟨count, more⟩ := Nat.exists_eq_succ_of_ne_zero positive
    rw [SHA1.input, if_neg empty]
    cases phase with
    | absorbing message =>
        obtain ⟨pending, absorbs⟩ := represents
        rw [absorbs.running, absorbs.sound, Bool.or_false, if_neg Bool.false_ne_true]
        exact absorbs.inputLoop inside
    | computed message =>
        rw [represents.2.1, Bool.true_or, if_pos rfl, some, more, List.take_succ_cons,
          List.foldl_cons, Phase.take, Phase.foldl_take_corrupted]
        exact ⟨_, rfl, represents.1, rfl⟩
    | corrupted =>
        rw [represents.2, Bool.or_true, if_pos rfl, Phase.foldl_take_corrupted]
        exact ⟨_, rfl, represents.1, rfl⟩

/-- The octets of a text in front of its end are taken. -/
theorem Represents.inputText {phase : Phase} (represents : Represents sha phase)
    (text : List UInt8) (ended : 0 ∈ text) :
    ∃ next, inputText text sha = .ok next ∧
      Represents next ((text.takeWhile (· != 0)).foldl Phase.take phase) := by
  induction text generalizing sha phase with
  | nil => exact absurd ended List.not_mem_nil
  | cons p text ih =>
      rw [SHA1.inputText]
      by_cases last : p = 0
      · rw [if_pos last, List.takeWhile_cons_of_neg (by simp [last])]
        exact ⟨sha, rfl, represents⟩
      · obtain ⟨next, taken, represents⟩ :=
          represents.input [p] 1 (Nat.le_refl 1)
        rw [if_neg last, taken, Outcome.ok_bind, List.takeWhile_cons_of_pos (by simpa using last)]
        exact ih represents ((List.mem_cons.mp ended).resolve_left (Ne.symm last))

/-- **Result.** The digest is that of the message. -/
theorem Represents.result {phase : Phase} (represents : Represents sha phase) :
    ∃ next, sha.result = .ok (phase.answer, next) ∧ Represents next phase.asked := by
  cases phase with
  | absorbing message =>
      obtain ⟨pending, absorbs⟩ := represents
      obtain ⟨block, padded, size⟩ := absorbs.padMessage
      rw [SHA1.result, absorbs.sound, absorbs.running, if_neg Bool.false_ne_true,
        if_neg Bool.false_ne_true, padded, Outcome.ok_bind]
      exact ⟨_, rfl, size, rfl, absorbs.sound, rfl⟩
  | computed message =>
      rw [SHA1.result, represents.2.2.1, if_neg Bool.false_ne_true, represents.2.1, if_pos rfl,
        represents.2.2.2]
      exact ⟨sha, rfl, represents⟩
  | corrupted =>
      rw [SHA1.result, represents.2, if_pos rfl]
      exact ⟨sha, rfl, represents⟩

/-! ## Runs -/

/-- A call of a method. -/
inductive Call where
  | reset
  | input (messageArray : List UInt8) (length : UInt32)
  | inputText (text : List UInt8)
  | result

/-- The array has as many octets as its length says, and the text ends. -/
def Call.Inside : Call → Prop
  | .input messageArray length => length.toNat ≤ messageArray.length
  | .inputText text => 0 ∈ text
  | .reset => True
  | .result => True

instance : DecidablePred Call.Inside
  | .input messageArray length => inferInstanceAs (Decidable (length.toNat ≤ messageArray.length))
  | .inputText text => inferInstanceAs (Decidable (0 ∈ text))
  | .reset => isTrue trivial
  | .result => isTrue trivial

/-- A call, with what `Result` says. -/
def call (sha : SHA1) : Call → Outcome Empty (List (Option Words) × SHA1)
  | .reset => return ([], sha.reset)
  | .input messageArray length => do return ([], ← sha.input messageArray length)
  | .inputText text => do return ([], ← sha.inputText text)
  | .result => do
      let (said, sha) ← sha.result
      return ([said], sha)

def run (sha : SHA1) : List Call → Outcome Empty (List (Option Words) × SHA1)
  | [] => return ([], sha)
  | made :: calls => do
      let (said, sha) ← sha.call made
      let (answers, sha) ← sha.run calls
      return (said ++ answers, sha)

namespace Phase

/-- What a call is to make of a phase. -/
def next (phase : Phase) : Call → Phase
  | .reset => .absorbing []
  | .input messageArray length => (messageArray.take length.toNat).foldl take phase
  | .inputText text => (text.takeWhile (· != 0)).foldl take phase
  | .result => phase.asked

/-- What is to be answered to the calls of `Result`. -/
def answers (phase : Phase) : List Call → List (Option Words)
  | [] => []
  | .result :: calls => phase.answer :: phase.asked.answers calls
  | made :: calls => (phase.next made).answers calls

/-- A message is spoilt exactly if its bits cannot be counted. -/
theorem foldl_take {message : List UInt8} (fits : 8 * message.length < 2 ^ 64)
    (octets : List UInt8) : octets.foldl take (.absorbing message) =
      if 8 * (message.length + octets.length) < 2 ^ 64 then .absorbing (message ++ octets)
      else .corrupted := by
  induction octets generalizing message with
  | nil => rw [List.foldl_nil, List.length_nil, Nat.add_zero, if_pos fits, List.append_nil]
  | cons octet octets ih =>
      have length : (message ++ [octet]).length = message.length + 1 := by
        rw [List.length_append, List.length_singleton]
      rw [List.foldl_cons, take, List.length_cons]
      by_cases one : 8 * (message.length + 1) < 2 ^ 64
      · rw [if_pos one, ih (length ▸ one), length, List.append_assoc, List.singleton_append,
          Nat.add_right_comm, Nat.add_assoc]
      · rw [if_neg one, if_neg (by omega), foldl_take_corrupted]

end Phase

/-- Every call keeps what an object stands for, and answers for it. -/
theorem Represents.call {phase : Phase} (represents : Represents sha phase) {made : Call}
    (inside : made.Inside) : ∃ said next, sha.call made = .ok (said, next) ∧
      Represents next (phase.next made) ∧
      ∀ calls, phase.answers (made :: calls) = said ++ (phase.next made).answers calls := by
  cases made with
  | reset => exact ⟨[], sha.reset, rfl, represents_reset represents.size, fun _ => rfl⟩
  | input messageArray length =>
      obtain ⟨next, taken, represents⟩ := represents.input messageArray length inside
      refine ⟨[], next, ?_, represents, fun _ => rfl⟩
      rw [SHA1.call, taken]
      rfl
  | inputText text =>
      obtain ⟨next, taken, represents⟩ := represents.inputText text inside
      refine ⟨[], next, ?_, represents, fun _ => rfl⟩
      rw [SHA1.call, taken]
      rfl
  | result =>
      obtain ⟨next, asked, represents⟩ := represents.result
      refine ⟨[phase.answer], next, ?_, represents, fun _ => rfl⟩
      rw [SHA1.call, asked]
      rfl

theorem Represents.run {phase : Phase} (represents : Represents sha phase) {calls : List Call}
    (inside : ∀ made ∈ calls, made.Inside) :
    ∃ last, sha.run calls = .ok (phase.answers calls, last) := by
  induction calls generalizing sha phase with
  | nil => exact ⟨sha, rfl⟩
  | cons made calls ih =>
      obtain ⟨first, others⟩ := List.forall_mem_cons.mp inside
      obtain ⟨said, next, called, represents, answers⟩ := represents.call first
      obtain ⟨last, rest⟩ := ih represents others
      refine ⟨last, ?_⟩
      rw [SHA1.run, called, Outcome.ok_bind]
      change (next.run calls >>= _) = _
      rw [rest, answers]
      rfl

/-- **Runs.** An object that is made on any memory never writes outside of its message block, and
answers every `Result` with the digest of what was put in since the last `Reset`. It refuses to
answer exactly if something was put in behind a digest, or `2 ^ 64` bits. -/
theorem run_answers {memory : SHA1} (size : memory.messageBlock.length = 64) {calls : List Call}
    (inside : ∀ made ∈ calls, made.Inside) :
    ∃ last, (new memory).run calls = .ok ((Phase.absorbing []).answers calls, last) :=
  (represents_reset size).run inside

/-- Some memory. -/
def blank : SHA1 := ⟨initial, 7, 7, List.replicate 64 1, 5, true, true⟩

/-- A message in two parts, its digest twice, and input behind the digest. -/
def spoiltCalls : List Call :=
  [.inputText [97, 0], .input [98, 99, 100] 2, .result, .result, .input [100] 1, .result, .reset]

theorem run_answers_spoilt : ∃ last,
    (new blank).run spoiltCalls = .ok ((Phase.absorbing []).answers spoiltCalls, last) :=
  run_answers (by decide) (by decide)

example : ((new blank).run spoiltCalls >>= fun ran => .ok ran.1) = .ok
    [some ⟨0xa9993e36, 0x4706816a, 0xba3e2571, 0x7850c26c, 0x9cd0d89d⟩,
      some ⟨0xa9993e36, 0x4706816a, 0xba3e2571, 0x7850c26c, 0x9cd0d89d⟩, none] := by
  decide +kernel

end Cube.Eco.SHA1
