import Cube.Base.Base64
import Cube.Lib.Crc

/-! # Small functions of `util.cpp`

`encode` and `decode`, which add to each character its position, and `calculate_crc`, which reads a
table of words. Characters are bytes, and an `int` is its 32 bits.
-/

namespace Cube.Base.Util

/-! ## Characters and their positions -/

/-- The loop of `encode`, on the first `length` characters of the memory at the pointer. -/
def xorPositions (length : Int) (pstr : List UInt8) : List UInt8 :=
  pstr.mapIdx fun i c => if (i : Int) < length then c ^^^ UInt8.ofNat i else c

/-- `encode`, on the memory at the pointer. The length of the text is an `int`. -/
def encode (pstr : List UInt8) : Outcome AllocError (List UInt8) := do
  let length ← strlen pstr
  return xorPositions ((length : Int).bmod (2 ^ 32)) pstr

/-- `decode`. -/
def decode (pstr : List UInt8) : Outcome AllocError (List UInt8) := do
  let length ← strlen pstr
  return xorPositions ((length : Int).bmod (2 ^ 32)) pstr

/-- `encode` leaves a text of the same length, and `decode` gives the text back; what stands in the
memory behind the text stays. -/
def Restored (text rest : List UInt8) : Prop :=
  ∃ encoded : List UInt8, 0 ∉ encoded ∧ encoded.length = text.length ∧
    encode (text ++ 0 :: rest) = .ok (encoded ++ 0 :: rest) ∧
    decode (encoded ++ 0 :: rest) = .ok (text ++ 0 :: rest)

/-- No character of the text is the last byte of its own position. -/
def Apart (text : List UInt8) : Prop :=
  ∀ i : Nat, (i : Int) < (text.length : Int).bmod (2 ^ 32) → text[i]? ≠ some (UInt8.ofNat i)

theorem count_le (length : Nat) : (length : Int).bmod (2 ^ 32) ≤ length := by
  have wrapped := Int.bmod_def (length : Int) (2 ^ 32)
  split at wrapped <;> omega

/-- The loop stays inside the text. -/
theorem xorPositions_append {length : Int} {text : List UInt8} (inside : length ≤ text.length)
    (rest : List UInt8) :
    xorPositions length (text ++ rest) = xorPositions length text ++ rest := by
  rw [xorPositions, List.mapIdx_append, ← xorPositions]
  congr 1
  refine List.ext_getElem (by simp) fun i _ _ => ?_
  rw [List.getElem_mapIdx, if_neg (by omega)]

@[simp] theorem length_xorPositions (length : Int) (text : List UInt8) :
    (xorPositions length text).length = text.length := List.length_mapIdx

theorem getElem?_xorPositions (length : Int) (text : List UInt8) (i : Nat) :
    (xorPositions length text)[i]? =
      text[i]?.map fun c => if (i : Int) < length then c ^^^ UInt8.ofNat i else c :=
  List.getElem?_mapIdx

/-- The positions are added twice without a trace. -/
theorem xorPositions_twice (length : Int) (text : List UInt8) :
    xorPositions length (xorPositions length text) = text := by
  refine List.ext_getElem? fun i => ?_
  rw [getElem?_xorPositions, getElem?_xorPositions]
  cases text[i]? with
  | none => rfl
  | some c =>
      simp only [Option.map_some, Option.some.injEq]
      split
      · rw [UInt8.xor_assoc, UInt8.xor_self, UInt8.xor_zero]
      · rfl

/-- A NUL comes into the text where a character is its own position. -/
theorem zero_notMem_xorPositions {length : Int} {text : List UInt8} (plain : 0 ∉ text) :
    0 ∉ xorPositions length text ↔
      ∀ i : Nat, (i : Int) < length → text[i]? ≠ some (UInt8.ofNat i) := by
  rw [List.mem_iff_getElem?, not_exists]
  refine forall_congr' fun i => ?_
  rw [getElem?_xorPositions]
  cases found : text[i]? with
  | none => simp
  | some c =>
      have other : c ≠ 0 := fun nul => plain (nul ▸ List.mem_of_getElem? found)
      by_cases inside : (i : Int) < length
      · simp [inside]
      · simp [inside, other]

theorem strlen_append {text : List UInt8} (plain : 0 ∉ text) (rest : List UInt8) :
    strlen (text ++ 0 :: rest) = .ok text.length := by
  have front : (text ++ 0 :: rest).takeWhile (· ≠ 0) = text := by
    rw [List.append_cons, List.takeWhile_append, takeWhile_nul plain]
    simp
  rw [strlen, if_pos (by simp), front]

/-- `encode` changes the text and nothing behind it. -/
theorem encode_append {text : List UInt8} (plain : 0 ∉ text) (rest : List UInt8) :
    encode (text ++ 0 :: rest) =
      .ok (xorPositions ((text.length : Int).bmod (2 ^ 32)) text ++ 0 :: rest) := by
  rw [encode, strlen_append plain, Outcome.ok_bind, xorPositions_append (count_le _)]
  rfl

/-- A text is restored exactly if no character is the last byte of its own position. -/
theorem restored_iff {text : List UInt8} (plain : 0 ∉ text) (rest : List UInt8) :
    Restored text rest ↔ Apart text := by
  rw [Apart, ← zero_notMem_xorPositions plain]
  constructor
  · rintro ⟨encoded, clean, _, returned, _⟩
    rw [encode_append plain] at returned
    obtain rfl := List.append_cancel_right (Outcome.ok.inj returned)
    exact clean
  · intro clean
    refine ⟨_, clean, length_xorPositions _ text, encode_append plain rest, ?_⟩
    have back := encode_append clean rest
    rw [length_xorPositions, xorPositions_twice] at back
    exact back

/-- The text `hi`, in a memory that ends with it. -/
theorem restored_two : Restored [104, 105] [] := by
  refine (restored_iff (by decide) []).mpr fun i inside => ?_
  have low : (i : Int) < 2 := by simpa using inside
  have small : i < 2 := by omega
  match i with
  | 0 | 1 => decide

/-- The second character is the byte 1, and the text that is left has one character. -/
theorem not_restored_one : ¬ Restored [104, 1] [] := by
  rintro ⟨encoded, clean, _, returned, _⟩
  have direct : encode [104, 1, 0] = .ok [104, 0, 0] := by decide +kernel
  have same := List.append_cancel_right (Outcome.ok.inj (returned.symm.trans direct) :
    encoded ++ [0] = [104, 0] ++ [0])
  rw [same] at clean
  exact clean (by decide)

/-! ## The checksum -/

/-- The polynomial 0xEDB88320 of the reflected CRC-32. -/
def polynomial : BitVec 32 := 0xEDB88320

def table : List (BitVec 32) :=
  [0x00000000, 0x77073096, 0xEE0E612C, 0x990951BA, 0x076DC419, 0x706AF48F, 0xE963A535, 0x9E6495A3,
  0x0EDB8832, 0x79DCB8A4, 0xE0D5E91E, 0x97D2D988, 0x09B64C2B, 0x7EB17CBD, 0xE7B82D07, 0x90BF1D91,
  0x1DB71064, 0x6AB020F2, 0xF3B97148, 0x84BE41DE, 0x1ADAD47D, 0x6DDDE4EB, 0xF4D4B551, 0x83D385C7,
  0x136C9856, 0x646BA8C0, 0xFD62F97A, 0x8A65C9EC, 0x14015C4F, 0x63066CD9, 0xFA0F3D63, 0x8D080DF5,
  0x3B6E20C8, 0x4C69105E, 0xD56041E4, 0xA2677172, 0x3C03E4D1, 0x4B04D447, 0xD20D85FD, 0xA50AB56B,
  0x35B5A8FA, 0x42B2986C, 0xDBBBC9D6, 0xACBCF940, 0x32D86CE3, 0x45DF5C75, 0xDCD60DCF, 0xABD13D59,
  0x26D930AC, 0x51DE003A, 0xC8D75180, 0xBFD06116, 0x21B4F4B5, 0x56B3C423, 0xCFBA9599, 0xB8BDA50F,
  0x2802B89E, 0x5F058808, 0xC60CD9B2, 0xB10BE924, 0x2F6F7C87, 0x58684C11, 0xC1611DAB, 0xB6662D3D,
  0x76DC4190, 0x01DB7106, 0x98D220BC, 0xEFD5102A, 0x71B18589, 0x06B6B51F, 0x9FBFE4A5, 0xE8B8D433,
  0x7807C9A2, 0x0F00F934, 0x9609A88E, 0xE10E9818, 0x7F6A0DBB, 0x086D3D2D, 0x91646C97, 0xE6635C01,
  0x6B6B51F4, 0x1C6C6162, 0x856530D8, 0xF262004E, 0x6C0695ED, 0x1B01A57B, 0x8208F4C1, 0xF50FC457,
  0x65B0D9C6, 0x12B7E950, 0x8BBEB8EA, 0xFCB9887C, 0x62DD1DDF, 0x15DA2D49, 0x8CD37CF3, 0xFBD44C65,
  0x4DB26158, 0x3AB551CE, 0xA3BC0074, 0xD4BB30E2, 0x4ADFA541, 0x3DD895D7, 0xA4D1C46D, 0xD3D6F4FB,
  0x4369E96A, 0x346ED9FC, 0xAD678846, 0xDA60B8D0, 0x44042D73, 0x33031DE5, 0xAA0A4C5F, 0xDD0D7CC9,
  0x5005713C, 0x270241AA, 0xBE0B1010, 0xC90C2086, 0x5768B525, 0x206F85B3, 0xB966D409, 0xCE61E49F,
  0x5EDEF90E, 0x29D9C998, 0xB0D09822, 0xC7D7A8B4, 0x59B33D17, 0x2EB40D81, 0xB7BD5C3B, 0xC0BA6CAD,
  0xEDB88320, 0x9ABFB3B6, 0x03B6E20C, 0x74B1D29A, 0xEAD54739, 0x9DD277AF, 0x04DB2615, 0x73DC1683,
  0xE3630B12, 0x94643B84, 0x0D6D6A3E, 0x7A6A5AA8, 0xE40ECF0B, 0x9309FF9D, 0x0A00AE27, 0x7D079EB1,
  0xF00F9344, 0x8708A3D2, 0x1E01F268, 0x6906C2FE, 0xF762575D, 0x806567CB, 0x196C3671, 0x6E6B06E7,
  0xFED41B76, 0x89D32BE0, 0x10DA7A5A, 0x67DD4ACC, 0xF9B9DF6F, 0x8EBEEFF9, 0x17B7BE43, 0x60B08ED5,
  0xD6D6A3E8, 0xA1D1937E, 0x38D8C2C4, 0x4FDFF252, 0xD1BB67F1, 0xA6BC5767, 0x3FB506DD, 0x48B2364B,
  0xD80D2BDA, 0xAF0A1B4C, 0x36034AF6, 0x41047A60, 0xDF60EFC3, 0xA867DF55, 0x316E8EEF, 0x4669BE79,
  0xCB61B38C, 0xBC66831A, 0x256FD2A0, 0x5268E236, 0xCC0C7795, 0xBB0B4703, 0x220216B9, 0x5505262F,
  0xC5BA3BBE, 0xB2BD0B28, 0x2BB45A92, 0x5CB36A04, 0xC2D7FFA7, 0xB5D0CF31, 0x2CD99E8B, 0x5BDEAE1D,
  0x9B64C2B0, 0xEC63F226, 0x756AA39C, 0x026D930A, 0x9C0906A9, 0xEB0E363F, 0x72076785, 0x05005713,
  0x95BF4A82, 0xE2B87A14, 0x7BB12BAE, 0x0CB61B38, 0x92D28E9B, 0xE5D5BE0D, 0x7CDCEFB7, 0x0BDBDF21,
  0x86D3D2D4, 0xF1D4E242, 0x68DDB3F8, 0x1FDA836E, 0x81BE16CD, 0xF6B9265B, 0x6FB077E1, 0x18B74777,
  0x88085AE6, 0xFF0F6A70, 0x66063BCA, 0x11010B5C, 0x8F659EFF, 0xF862AE69, 0x616BFFD3, 0x166CCF45,
  0xA00AE278, 0xD70DD2EE, 0x4E048354, 0x3903B3C2, 0xA7672661, 0xD06016F7, 0x4969474D, 0x3E6E77DB,
  0xAED16A4A, 0xD9D65ADC, 0x40DF0B66, 0x37D83BF0, 0xA9BCAE53, 0xDEBB9EC5, 0x47B2CF7F, 0x30B5FFE9,
  0xBDBDF21C, 0xCABAC28A, 0x53B39330, 0x24B4A3A6, 0xBAD03605, 0xCDD70693, 0x54DE5729, 0x23D967BF,
  0xB3667A2E, 0xC4614AB8, 0x5D681B02, 0x2A6F2B94, 0xB40BBE37, 0xC30C8EA1, 0x5A05DF1B, 0x2D02EF8D]

/-- The loop of `calculate_crc`. -/
def crcStep (crc : BitVec 32) (byte : BitVec 8) : BitVec 32 :=
  crc.sshiftRight 8 ^^^ table.getD ((crc &&& 0xFF) ^^^ byte.setWidth 32).toNat 0

/-- `calculate_crc`. -/
def calculateCrc (content : List (BitVec 8)) (crc : BitVec 32) : BitVec 32 :=
  content.foldl crcStep crc

/-- The words of the table are the bytes, checked bit by bit. -/
theorem table_eq (byte : BitVec 8) :
    table.getD byte.toNat 0 = Crc.byteStep polynomial 0#32 byte := by
  have all : ∀ i : Fin 256, table.getD i 0 = Crc.byteStep polynomial 0#32 (BitVec.ofNat 8 i) := by
    decide +kernel
  have here := all ⟨byte.toNat, byte.isLt⟩
  rwa [BitVec.ofNat_toNat, BitVec.setWidth_eq] at here

/-- What the shift of a negative `int` brings in at the front. -/
def signBits (crc : BitVec 32) : BitVec 32 := if crc.msb then 0xFF000000 else 0#32

theorem sshiftRight_eq (crc : BitVec 32) : crc.sshiftRight 8 = (crc >>> 8) ^^^ signBits crc := by
  unfold signBits
  cases sign : crc.msb with
  | false =>
      rw [BitVec.sshiftRight_eq_of_msb_false sign, if_neg Bool.false_ne_true, BitVec.xor_zero]
  | true =>
      have front : (0xFF000000 : BitVec 32) = ~~~(BitVec.allOnes 32 >>> 8) := by decide
      rw [BitVec.sshiftRight_eq_of_msb_true sign, if_pos rfl, front]
      refine BitVec.eq_of_getLsbD_eq fun i inside => ?_
      simp only [BitVec.getLsbD_not, BitVec.getLsbD_xor, BitVec.getLsbD_ushiftRight,
        BitVec.getLsbD_allOnes]
      by_cases low : 8 + i < 32
      · simp [inside, low]
      · simp [inside, low, BitVec.getLsbD_of_ge crc (8 + i) (Nat.not_lt.mp low)]

theorem index_eq (crc : BitVec 32) (byte : BitVec 8) :
    ((crc &&& 0xFF) ^^^ byte.setWidth 32).toNat = (Crc.lowByte crc ^^^ byte).toNat := by
  have low : (crc &&& 0xFF).toNat = crc.toNat % 2 ^ 8 := Nat.and_two_pow_sub_one_eq_mod crc.toNat 8
  have same : (byte.setWidth 32).toNat = byte.toNat := BitVec.toNat_setWidth_of_le (by decide)
  rw [BitVec.toNat_xor, BitVec.toNat_xor, low, same, Crc.lowByte, BitVec.toNat_setWidth]

/-- A step of the loop is one of the checksum with the sign brought in. -/
theorem crcStep_eq (crc : BitVec 32) (byte : BitVec 8) :
    crcStep crc byte = Crc.flawedStep polynomial signBits crc byte := by
  rw [crcStep, index_eq, table_eq, sshiftRight_eq, Crc.flawedStep,
    Crc.byteStep_eq crc byte,
    BitVec.xor_assoc, BitVec.xor_comm (signBits crc), ← BitVec.xor_assoc]

theorem calculateCrc_eq (content : List (BitVec 8)) (crc : BitVec 32) :
    calculateCrc content crc = content.foldl (Crc.flawedStep polynomial signBits) crc := by
  rw [calculateCrc, funext₂ crcStep_eq]

theorem signBits_eq_zero_iff (crc : BitVec 32) : signBits crc = 0#32 ↔ crc.msb = false := by
  unfold signBits
  cases crc.msb with
  | false => simp
  | true => decide

/-- The checksum is the CRC-32 of the content exactly if nothing is left of the bits that negative
registers bring in; it is that of all the first bytes exactly if no register on the way is
negative. -/
theorem calculateCrc_iff (content : List (BitVec 8)) (crc : BitVec 32) :
    (calculateCrc content crc = Crc.check polynomial crc content ↔
        Crc.drift polynomial signBits crc 0#32 content = 0#32) ∧
      ((∀ count, calculateCrc (content.take count) crc =
          Crc.check polynomial crc (content.take count)) ↔
        ∀ count < content.length,
          (Crc.check polynomial crc (content.take count)).msb = false) := by
  simp only [calculateCrc_eq, ← signBits_eq_zero_iff]
  exact ⟨Crc.foldl_flawedStep_eq_iff polynomial signBits crc content,
    Crc.forall_foldl_flawedStep_iff polynomial signBits crc content⟩

/-- From -1 on, the first byte is checked wrongly. -/
theorem calculateCrc_negative :
    ¬ ∀ (content : List (BitVec 8)) (crc : BitVec 32),
      calculateCrc content crc = Crc.check polynomial crc content := by
  intro all
  exact absurd (all [0x31] (-1)) (by decide +kernel)

end Cube.Base.Util
