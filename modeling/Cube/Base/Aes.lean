import Cube.Base.Base64RoundTrip

/-! # Encrypted texts

The class `aes` of `aes.cpp` on text: `encrypt_as_base64` and `decrypt_base64` with the buffers they
allocate. `AES_cbc_encrypt` and the key schedules are not part of the repository; they are given as
one cipher, with the same key set for both directions and an initial vector of zeros.
-/

namespace Cube.Base

/-- `AES_cbc_encrypt` in both directions. -/
structure Cipher where
  encrypt : List UInt8 → List UInt8
  decrypt : List UInt8 → List UInt8

def AES_BLOCK_SIZE : Nat := 16

/-- The length of whole blocks that hold so many bytes. -/
def wholeBlocks (length : Nat) : Nat := (length + 15) / 16 * 16

/-- What the class relies on: encryption fills the last block with zero bytes and writes whole
blocks, and decryption undoes it on whole blocks. -/
structure Cipher.Lawful (cipher : Cipher) : Prop where
  length_encrypt : ∀ plain, (cipher.encrypt plain).length = wholeBlocks plain.length
  padded : ∀ plain, cipher.encrypt plain =
    cipher.encrypt (plain ++ List.replicate (wholeBlocks plain.length - plain.length) 0)
  decrypt_encrypt : ∀ plain, AES_BLOCK_SIZE ∣ plain.length →
    cipher.decrypt (cipher.encrypt plain) = plain

/-- Decryption gives the text back with zero bytes up to whole blocks. -/
theorem Cipher.Lawful.decrypt_padded {cipher : Cipher} (lawful : cipher.Lawful)
    (plain : List UInt8) : cipher.decrypt (cipher.encrypt plain) =
      plain ++ List.replicate (wholeBlocks plain.length - plain.length) 0 := by
  rw [lawful.padded]
  apply lawful.decrypt_encrypt
  simp only [List.length_append, List.length_replicate, AES_BLOCK_SIZE, wholeBlocks]
  omega

namespace Aes

/-- The characters of a buffer that have a value, up to the first that has none. -/
def values : List (Option UInt8) → Outcome AllocError (List UInt8)
  | [] => .ok []
  | none :: _ => .fault
  | some c :: buffer => do return c :: (← values buffer)

/-- The length a function goes on with: `strlen` in place of -1, as an `int`. -/
def autoLength (input : List UInt8) (length : Int) : Outcome AllocError Int :=
  if length = -1 then do
    let length ← strlen input
    return (length : Int).bmod (2 ^ 32)
  else return length

/-- The `length` characters that `AES_cbc_encrypt` reads. A negative length is no length of a range
of memory. -/
def inputRange (input : List UInt8) (length : Int) : Outcome AllocError (List UInt8) :=
  if length < 0 then .fault else Buffer.slice input 0 length.toNat

/-- `aes::encrypt`: the buffer after it, and the length it returns. -/
def encrypt (cipher : Cipher) (out : List (Option UInt8)) (input : List UInt8) (length : Int) :
    Outcome AllocError (List (Option UInt8) × Int) := do
  let length ← autoLength input length
  let plain ← inputRange input length
  let out ← Buffer.patch out 0 ((cipher.encrypt plain).map some)
  let sum ← asInt (length + AES_BLOCK_SIZE)
  return (out, (sum - 1).tdiv AES_BLOCK_SIZE * AES_BLOCK_SIZE)

/-- `aes::encrypt_as_base64`. -/
def encryptAsBase64 (cipher : Cipher) (input : List UInt8) (length : Int) :
    Outcome AllocError (List UInt8) := do
  let size ← asInt ((length + AES_BLOCK_SIZE) * 2)
  let out ← newChars size
  let (out, outLength) ← encrypt cipher out input length
  if 0 < outLength then do
    let encrypted ← values (out.take outLength.toNat)
    Base64.base64Encode encrypted outLength
  else return []

/-- `aes::decrypt`: the buffer after it, and the length it returns. -/
def decrypt (cipher : Cipher) (out : List (Option UInt8)) (input : List UInt8) (length : Nat) :
    Outcome AllocError (List (Option UInt8) × Int) := do
  if length % AES_BLOCK_SIZE ≠ 0 then return (out, -1)
  else do
    let blocks ← Buffer.slice input 0 length
    let out ← Buffer.patch out 0 ((cipher.decrypt blocks).map some)
    return (out, length)

/-- `aes::decrypt_base64`. -/
def decryptBase64 (cipher : Cipher) (input : List UInt8) (length : Int) :
    Outcome AllocError (List UInt8) := do
  let length ← autoLength input length
  let inPlain ← Base64.base64Decode input length
  let inPlain ← values inPlain
  let out ← newChars (inPlain.length * 2)
  let (out, outLength) ← decrypt cipher out inPlain inPlain.length
  if 0 < outLength then values (out.take inPlain.length) else return []

/-! ## The round trip -/

/-- The two ways of giving the length of a text. -/
def Given (text : List UInt8) (length : Int) : Prop :=
  length = text.length ∧ length < 2 ^ 31 ∨ length = -1

/-- The text is encrypted inside the buffer, and what it is encrypted to is decrypted inside its
buffer, to the text. -/
def RoundTrip (cipher : Cipher) (text : List UInt8) (length : Int) : Prop :=
  ∃ encrypted, encryptAsBase64 cipher (text ++ [0]) length = .ok encrypted ∧
    ∀ again, Given encrypted again → decryptBase64 cipher (encrypted ++ [0]) again = .ok text

/-- The text is one or more whole blocks and its encoded form can be measured; where its length is
not given, it is one block. -/
structure Fits (text : List UInt8) (length : Int) : Prop where
  blocks : AES_BLOCK_SIZE ∣ text.length
  nonempty : text ≠ []
  short : text.length < 2 ^ 28
  one : length = -1 → text.length = AES_BLOCK_SIZE

@[simp] theorem values_some (text : List UInt8) : values (text.map some) = .ok text := by
  induction text with
  | nil => rfl
  | cons c text ih => simp only [List.map_cons, values, ih, Outcome.ok_bind, Outcome.pure_eq]

/-- The first characters of a filled buffer are what it was filled with. -/
theorem take_of_patch {buffer filled : List (Option UInt8)} {content : List UInt8}
    (patched : (Buffer.patch buffer 0 (content.map some) : Outcome AllocError _) = .ok filled) :
    content.length ≤ buffer.length ∧ filled.take content.length = content.map some := by
  obtain ⟨room, rfl⟩ := Buffer.patch_eq_ok.mp patched
  constructor
  · simpa using room
  · rw [List.take_zero, List.nil_append, List.take_left' (List.length_map _)]

/-- A buffer with room for some content can be filled with it. -/
theorem patch_of_room {buffer : List (Option UInt8)} {content : List UInt8}
    (room : content.length ≤ buffer.length) :
    ∃ filled, (Buffer.patch buffer 0 (content.map some) : Outcome AllocError _) = .ok filled :=
  ⟨_, Buffer.patch_eq_ok.mpr ⟨by simpa using room, rfl⟩⟩

/-- The length of a text that is given either way. -/
theorem autoLength_given {text : List UInt8} {length : Int} (plain : 0 ∉ text)
    (short : text.length < 2 ^ 31) (given : Given text length) :
    autoLength (text ++ [0]) length = .ok text.length := by
  rcases given with ⟨whole, _⟩ | automatic
  · rw [autoLength, if_neg (by omega), whole]
    rfl
  · have nul : (0 : UInt8) ∈ text ++ [0] := by simp
    rw [autoLength, if_pos automatic, strlen, if_pos nul, takeWhile_nul plain, Outcome.ok_bind,
      Outcome.pure_eq, Int.bmod_eq_of_le_mul_two (by omega) (by omega)]

/-- The length that is gone on with is not above the length of the text. -/
theorem autoLength_le {text : List UInt8} {length : Int} {count : Nat} (plain : 0 ∉ text)
    (given : Given text length) (measured : autoLength (text ++ [0]) length = .ok count) :
    count ≤ text.length := by
  rcases given with ⟨whole, high⟩ | automatic
  · rw [autoLength_given plain (by omega) (.inl ⟨whole, high⟩)] at measured
    have same := Outcome.ok.inj measured
    omega
  · have nul : (0 : UInt8) ∈ text ++ [0] := by simp
    rw [autoLength, if_pos automatic, strlen, if_pos nul, takeWhile_nul plain, Outcome.ok_bind,
      Outcome.pure_eq] at measured
    have same := Outcome.ok.inj measured
    have wrapped := Int.bmod_def (text.length : Int) (2 ^ 32)
    split at wrapped <;> omega

/-- Decoding the encoded form of some bytes, with its length given either way. -/
theorem decode_given {bytes : List UInt8} (nonempty : bytes ≠ []) (short : bytes.length < 2 ^ 28)
    {again : Int} (given : Given (Base64.encodeBytes [] bytes) again) :
    (autoLength (Base64.encodeBytes [] bytes ++ [0]) again >>=
      Base64.base64Decode (Base64.encodeBytes [] bytes ++ [0])) = .ok (bytes.map some) := by
  obtain ⟨letters, padding, encodes⟩ := Base64.exists_encodes bytes
  have size := encodes.length_eq
  have fits : (Base64.encodeBytes [] bytes).length < 2 ^ 31 := by omega
  rw [autoLength_given encodes.no_nul fits given, Outcome.ok_bind]
  let call : Call := ⟨Base64.encodeBytes [] bytes ++ [0], (Base64.encodeBytes [] bytes).length,
    by omega, by rw [if_neg (by omega), List.length_append]; omega⟩
  exact @Base64.base64Decode_encoded bytes nonempty short call
    (Base64.Passes.text_eq ⟨rfl, .inl rfl⟩ encodes.no_nul fits)

/-- Decrypting the encoded form of an encrypted text below 2^28. -/
theorem decryptBase64_eq {cipher : Cipher} (lawful : cipher.Lawful) {plain : List UInt8}
    (nonempty : plain ≠ []) (short : wholeBlocks plain.length < 2 ^ 28) {again : Int}
    (given : Given (Base64.encodeBytes [] (cipher.encrypt plain)) again) :
    decryptBase64 cipher (Base64.encodeBytes [] (cipher.encrypt plain) ++ [0]) again =
      .ok (plain ++ List.replicate (wholeBlocks plain.length - plain.length) 0) := by
  have size := lawful.length_encrypt plain
  have positive := List.length_pos_iff.mpr nonempty
  have blocks : cipher.encrypt plain ≠ [] := by
    apply List.length_pos_iff.mp
    rw [size, wholeBlocks]
    omega
  have decoded := decode_given blocks (by rw [size]; exact short) given
  obtain ⟨length, measured, decoded⟩ := Outcome.bind_eq_ok.mp decoded
  have allocated : newChars ((cipher.encrypt plain).length * 2) =
      .ok (List.replicate ((cipher.encrypt plain).length * 2) none) := by
    rw [newChars, if_neg (by omega)]
    rfl
  have whole : (cipher.encrypt plain).length % AES_BLOCK_SIZE = 0 := by
    rw [size, wholeBlocks, AES_BLOCK_SIZE]
    omega
  have same : (cipher.decrypt (cipher.encrypt plain)).length = (cipher.encrypt plain).length := by
    rw [lawful.decrypt_padded, size, List.length_append, List.length_replicate, wholeBlocks]
    omega
  have sliced : (Buffer.slice (cipher.encrypt plain) 0 (cipher.encrypt plain).length :
      Outcome AllocError _) = .ok (cipher.encrypt plain) :=
    Buffer.slice_eq_ok.mpr ⟨by omega, by rw [List.drop_zero, List.take_length]⟩
  obtain ⟨filled, patched⟩ := @patch_of_room
    (List.replicate ((cipher.encrypt plain).length * 2) none)
    (cipher.decrypt (cipher.encrypt plain)) (by rw [same, List.length_replicate]; omega)
  have read := (take_of_patch patched).2
  have long : (0 : Int) < (cipher.encrypt plain).length := by
    have := List.length_pos_iff.mpr blocks
    omega
  rw [same] at read
  simp only [decryptBase64, measured, decoded, values_some, allocated, decrypt, whole, sliced,
    patched, long, read, Outcome.ok_bind, Outcome.pure_eq, ne_eq, not_true_eq_false, ↓reduceIte]
  rw [lawful.decrypt_padded]

/-- Encoding some bytes, with their number. -/
theorem encode_bytes {bytes : List UInt8} (short : bytes.length < 2 ^ 30) :
    Base64.base64Encode bytes bytes.length = .ok (Base64.encodeBytes [] bytes) := by
  let call : Call := ⟨bytes, bytes.length, by omega, by rw [if_neg (by omega)]⟩
  have counted : call.count = bytes.length := if_neg (Int.not_lt.mpr (Int.natCast_nonneg _))
  have whole : call.text = bytes := by
    rw [Call.text, counted, Int.toNat_natCast]
    exact List.take_length
  have result := @Base64.base64Encode_eq call (by omega) (by omega)
  rw [whole] at result
  exact result

/-- Encrypting the first `count` characters of a text, in a buffer with room for their blocks. -/
theorem encryptAsBase64_eq {cipher : Cipher} (lawful : cipher.Lawful) {text : List UInt8}
    {length size : Int} {count : Nat} (measured : autoLength (text ++ [0]) length = .ok count)
    (positive : 0 < count) (inside : count ≤ text.length)
    (sized : asInt ((length + AES_BLOCK_SIZE) * 2) = .ok size) (room : wholeBlocks count ≤ size)
    (short : wholeBlocks count < 2 ^ 30) :
    encryptAsBase64 cipher (text ++ [0]) length =
      .ok (Base64.encodeBytes [] (cipher.encrypt (text.take count))) := by
  have blocks : (cipher.encrypt (text.take count)).length = wholeBlocks count := by
    rw [lawful.length_encrypt, List.length_take, Nat.min_eq_left inside]
  have allocated : newChars size = .ok (List.replicate size.toNat none) := by
    rw [newChars, if_neg (by omega)]
  have sliced : inputRange (text ++ [0]) count = .ok (text.take count) := by
    rw [inputRange, if_neg (Int.not_lt.mpr (Int.natCast_nonneg _)), Int.toNat_natCast]
    apply Buffer.slice_eq_ok.mpr
    rw [List.drop_zero, List.take_append_of_le_length inside, List.length_append]
    exact ⟨by omega, rfl⟩
  obtain ⟨filled, patched⟩ := @patch_of_room (List.replicate size.toNat none)
    (cipher.encrypt (text.take count)) (by rw [blocks, List.length_replicate]; omega)
  have read := (take_of_patch patched).2
  rw [blocks] at read
  have sum : asInt (count + AES_BLOCK_SIZE) = .ok (count + AES_BLOCK_SIZE) := by
    apply asInt_of_fits
    · omega
    · rw [wholeBlocks] at short
      rw [AES_BLOCK_SIZE]
      omega
  have outLength : ((count : Int) + AES_BLOCK_SIZE - 1).tdiv AES_BLOCK_SIZE * AES_BLOCK_SIZE =
      wholeBlocks count := by
    rw [Int.tdiv_eq_ediv_of_nonneg (by rw [AES_BLOCK_SIZE]; omega), wholeBlocks, AES_BLOCK_SIZE]
    omega
  have long : (0 : Int) < wholeBlocks count := by
    rw [wholeBlocks]
    omega
  have encoded := encode_bytes (by rw [blocks]; exact short)
  rw [blocks] at encoded
  have encrypted : encrypt cipher (List.replicate size.toNat none) (text ++ [0]) length =
      .ok (filled, (wholeBlocks count : Int)) := by
    simp only [encrypt, measured, sliced, patched, sum, outLength, Outcome.ok_bind,
      Outcome.pure_eq]
  rw [encryptAsBase64, sized, Outcome.ok_bind, allocated, Outcome.ok_bind, encrypted]
  show (if (0 : Int) < wholeBlocks count then _ else _) = _
  rw [if_pos long, Int.toNat_natCast, read, values_some, Outcome.ok_bind, encoded]

/-- A text that is encrypted: its length, the room in its buffer, and what it is encrypted to. -/
theorem of_encryptAsBase64 {cipher : Cipher} (lawful : cipher.Lawful) {text encrypted : List UInt8}
    {length : Int} (returned : encryptAsBase64 cipher (text ++ [0]) length = .ok encrypted) :
    ∃ (size : Int) (count : Nat), asInt ((length + AES_BLOCK_SIZE) * 2) = .ok size ∧
      autoLength (text ++ [0]) length = .ok count ∧ wholeBlocks count ≤ size ∧
      (count = 0 → encrypted = []) := by
  obtain ⟨size, sized, returned⟩ := Outcome.bind_eq_ok.mp returned
  obtain ⟨out, allocated, returned⟩ := Outcome.bind_eq_ok.mp returned
  obtain ⟨⟨filled, outLength⟩, crypt, returned⟩ := Outcome.bind_eq_ok.mp returned
  obtain ⟨count, measured, crypt⟩ := Outcome.bind_eq_ok.mp crypt
  obtain ⟨plain, sliced, crypt⟩ := Outcome.bind_eq_ok.mp crypt
  obtain ⟨out, patched, crypt⟩ := Outcome.bind_eq_ok.mp crypt
  obtain ⟨sum, summed, crypt⟩ := Outcome.bind_eq_ok.mp crypt
  have nonnegative : ¬ count < 0 := fun negative => by simp [inputRange, negative] at sliced
  rw [inputRange, if_neg nonnegative] at sliced
  have room := (take_of_patch patched).1
  rw [lawful.length_encrypt, Buffer.length_of_slice sliced] at room
  have known : count = (count.toNat : Int) := (Int.toNat_of_nonneg (Int.not_lt.mp nonnegative)).symm
  refine ⟨size, count.toNat, sized, known ▸ measured, ?_, fun zero => ?_⟩
  · unfold newChars at allocated
    split at allocated
    · cases allocated
    · obtain rfl := Outcome.ok.inj allocated
      rw [List.length_replicate] at room
      omega
  · obtain rfl : count = 0 := by omega
    have sixteen : asInt (0 + AES_BLOCK_SIZE) = .ok 16 := rfl
    rw [sixteen] at summed
    obtain rfl := Outcome.ok.inj summed
    obtain ⟨rfl, rfl⟩ := Prod.mk.inj (Outcome.ok.inj crypt)
    exact (Outcome.ok.inj returned).symm

/-- Bytes whose encoded form is decrypted are fewer than 2^28. -/
theorem short_of_decryptBase64 {cipher : Cipher} {bytes text : List UInt8}
    (fits : (Base64.encodeBytes [] bytes).length < 2 ^ 31)
    (returned : decryptBase64 cipher (Base64.encodeBytes [] bytes ++ [0])
      (Base64.encodeBytes [] bytes).length = .ok text) : bytes.length < 2 ^ 28 := by
  obtain ⟨letters, padding, encodes⟩ := Base64.exists_encodes bytes
  have size := encodes.length_eq
  let call : Call := ⟨Base64.encodeBytes [] bytes ++ [0], (Base64.encodeBytes [] bytes).length,
    by omega, by rw [if_neg (by omega), List.length_append]; omega⟩
  have counted : call.count = (Base64.encodeBytes [] bytes).length :=
    if_neg (Int.not_lt.mpr (Int.natCast_nonneg _))
  obtain ⟨length, measured, returned⟩ := Outcome.bind_eq_ok.mp returned
  rw [autoLength_given encodes.no_nul fits (.inl ⟨rfl, by omega⟩)] at measured
  obtain rfl := Outcome.ok.inj measured
  obtain ⟨decoded, returned, _⟩ := Outcome.bind_eq_ok.mp returned
  have small := (@Base64.measured_of_ok call decoded returned).2
  omega

/-- A text that the zero bytes behind it do not change. -/
theorem no_zeros {text : List UInt8} (plain : 0 ∉ text) {count : Nat}
    (same : text = text.take count ++ List.replicate (wholeBlocks count - count) 0)
    (inside : count ≤ text.length) : wholeBlocks count = count ∧ count = text.length := by
  have none_left : wholeBlocks count - count = 0 := by
    by_contra some_left
    obtain ⟨zeros, eq⟩ := Nat.exists_eq_succ_of_ne_zero some_left
    apply plain
    rw [same, eq]
    simp
  have lengths := congrArg List.length same
  rw [none_left, List.length_append, List.length_take, List.length_replicate] at lengths
  have up : count ≤ wholeBlocks count := by
    rw [wholeBlocks]
    omega
  omega

/-- What comes back is the text only where the text was whole blocks that fit. -/
theorem RoundTrip.fits {cipher : Cipher} (lawful : cipher.Lawful) {text : List UInt8}
    (plain : 0 ∉ text) {length : Int} (given : Given text length)
    (roundTrip : RoundTrip cipher text length) : Fits text length := by
  obtain ⟨encrypted, returned, decrypted⟩ := roundTrip
  obtain ⟨size, count, sized, measured, room, empty⟩ := of_encryptAsBase64 lawful returned
  have inside := autoLength_le plain given measured
  have positive : 0 < count := by
    by_contra zero
    obtain rfl := empty (by omega)
    have faulted := decrypted 0 (.inl ⟨rfl, by decide⟩)
    rw [show decryptBase64 cipher ([] ++ [0]) 0 = .fault from rfl] at faulted
    cases faulted
  obtain ⟨rfl, _, sizeHigh⟩ := of_asInt sized
  have short : wholeBlocks count < 2 ^ 30 := by
    rw [wholeBlocks, AES_BLOCK_SIZE] at *
    rcases given with ⟨whole, _⟩ | automatic <;> omega
  rw [encryptAsBase64_eq lawful measured positive inside sized room short] at returned
  obtain rfl := Outcome.ok.inj returned
  have blocks : (cipher.encrypt (text.take count)).length = wholeBlocks count := by
    rw [lawful.length_encrypt, List.length_take, Nat.min_eq_left inside]
  obtain ⟨letters, padding, encodes⟩ := Base64.exists_encodes (cipher.encrypt (text.take count))
  have encodedSize := encodes.length_eq
  have fits : (Base64.encodeBytes [] (cipher.encrypt (text.take count))).length < 2 ^ 31 := by
    omega
  have result := decrypted _ (.inl ⟨rfl, by omega⟩)
  have small := short_of_decryptBase64 fits result
  have taken : (text.take count).length = count := by
    rw [List.length_take, Nat.min_eq_left inside]
  have nonempty : text.take count ≠ [] := List.length_pos_iff.mp (by omega)
  rw [decryptBase64_eq lawful nonempty (by rw [taken]; omega) (.inl ⟨rfl, by omega⟩), taken]
    at result
  obtain ⟨whole, all⟩ := no_zeros plain (Outcome.ok.inj result).symm inside
  rw [all] at whole small blocks room
  refine ⟨?_, List.length_pos_iff.mp (by omega), by omega, fun automatic => ?_⟩
  · rw [← whole, wholeBlocks]
    exact Nat.dvd_mul_left _ _
  · rw [automatic, AES_BLOCK_SIZE] at room
    have bound : text.length ≤ 30 := by omega
    rw [wholeBlocks] at whole
    rw [AES_BLOCK_SIZE]
    omega

/-- Whole blocks that fit come back. -/
theorem Fits.roundTrip {cipher : Cipher} (lawful : cipher.Lawful) {text : List UInt8}
    (plain : 0 ∉ text) {length : Int} (given : Given text length) (fits : Fits text length) :
    RoundTrip cipher text length := by
  have positive := List.length_pos_iff.mpr fits.nonempty
  have small := fits.short
  obtain ⟨blocks, known⟩ := fits.blocks
  have whole : wholeBlocks text.length = text.length := by
    rw [wholeBlocks]
    rw [AES_BLOCK_SIZE] at known
    omega
  have room : (wholeBlocks text.length : Int) ≤ (length + AES_BLOCK_SIZE) * 2 ∧
      (length + AES_BLOCK_SIZE) * 2 < 2 ^ 31 := by
    rw [whole]
    rcases given with ⟨explicit, _⟩ | automatic
    · rw [AES_BLOCK_SIZE]
      omega
    · have one := fits.one automatic
      rw [AES_BLOCK_SIZE] at one ⊢
      omega
  have measured := autoLength_given plain (by omega) given
  have encrypted := encryptAsBase64_eq lawful measured positive le_rfl
    (asInt_of_fits (by omega) room.2) room.1 (by omega)
  rw [List.take_length] at encrypted
  refine ⟨_, encrypted, fun again passed => ?_⟩
  rw [decryptBase64_eq lawful fits.nonempty (by omega) passed, whole, Nat.sub_self]
  simp

/-- The round trip succeeds exactly for whole blocks that fit. -/
theorem roundTrip_iff {cipher : Cipher} (lawful : cipher.Lawful) {text : List UInt8}
    (plain : 0 ∉ text) {length : Int} (given : Given text length) :
    RoundTrip cipher text length ↔ Fits text length :=
  ⟨RoundTrip.fits lawful plain given, Fits.roundTrip lawful plain given⟩

/-- A cipher that only fills up whole blocks. -/
def plainCipher : Cipher where
  encrypt plain := plain ++ List.replicate (wholeBlocks plain.length - plain.length) 0
  decrypt blocks := blocks

theorem plainCipher_lawful : plainCipher.Lawful where
  length_encrypt plain := by
    simp only [plainCipher, List.length_append, List.length_replicate, wholeBlocks]
    omega
  padded plain := by
    have again : wholeBlocks (wholeBlocks plain.length) - wholeBlocks plain.length = 0 := by
      simp only [wholeBlocks]
      omega
    have whole : plain.length + (wholeBlocks plain.length - plain.length) =
        wholeBlocks plain.length := by
      simp only [wholeBlocks]
      omega
    simp only [plainCipher, List.length_append, List.length_replicate, whole, again,
      List.replicate_zero, List.append_nil]
  decrypt_encrypt plain blocks := by
    have whole : wholeBlocks plain.length - plain.length = 0 := by
      obtain ⟨count, known⟩ := blocks
      rw [AES_BLOCK_SIZE] at known
      rw [wholeBlocks]
      omega
    simp only [plainCipher, whole, List.replicate_zero, List.append_nil]

/-- One block is decrypted to itself. -/
theorem roundTrip_block : RoundTrip plainCipher (List.replicate 16 65) (-1) :=
  (roundTrip_iff plainCipher_lawful (by simp) (.inr rfl)).mpr
    ⟨by simp [AES_BLOCK_SIZE], by simp, by simp, fun _ => by simp [AES_BLOCK_SIZE]⟩

/-- A text of 31 characters is encrypted behind its buffer of 30 characters, and one of two
characters comes back with 14 zero bytes. -/
theorem roundTrip_lost :
    ¬ RoundTrip plainCipher (List.replicate 31 65) (-1) ∧ ¬ RoundTrip plainCipher [72, 105] 2 := by
  constructor
  · rintro ⟨encrypted, returned, _⟩
    have faulted : encryptAsBase64 plainCipher (List.replicate 31 65 ++ [0]) (-1) = .fault := by
      decide +kernel
    rw [faulted] at returned
    cases returned
  · rintro ⟨encrypted, returned, decrypted⟩
    have known : encryptAsBase64 plainCipher ([72, 105] ++ [0]) 2 =
        .ok [83, 71, 107, 65, 65, 65, 65, 65, 65, 65, 65, 65, 65, 65, 65, 65, 65, 65, 65, 65, 65,
          65, 61, 61] := by decide +kernel
    obtain rfl := Outcome.ok.inj (known.symm.trans returned)
    have longer : decryptBase64 plainCipher ([83, 71, 107, 65, 65, 65, 65, 65, 65, 65, 65, 65, 65,
        65, 65, 65, 65, 65, 65, 65, 65, 65, 61, 61] ++ [0]) (-1) =
          .ok ([72, 105] ++ List.replicate 14 0) := by decide +kernel
    exact absurd (longer.symm.trans (decrypted (-1) (.inr rfl))) (by decide)

end Aes

end Cube.Base
