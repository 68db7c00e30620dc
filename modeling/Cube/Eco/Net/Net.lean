import Cube.Lib.BigEndian
import Cube.Eco.Type

/-! # Network byte order

`Net.h` stores integers most significant byte first. `hton` gives the bytes it writes;
`ntoh` gives the value it reads from the bytes at its position.
-/

namespace Cube.Eco.Net

def hton16 (val : UInt16) : List UInt8 := BigEndian.encode 2 val.toNat
def hton32 (val : UInt32) : List UInt8 := BigEndian.encode 4 val.toNat

/-- The high word first, then the low word. -/
def hton64 (val : UInt64) : List UInt8 := hton32 (val >>> 32).toUInt32 ++ hton32 val.toUInt32

def ntoh16 (str : List UInt8) : UInt16 := UInt16.ofNat (BigEndian.decode (str.take 2))
def ntoh32 (str : List UInt8) : UInt32 := UInt32.ofNat (BigEndian.decode (str.take 4))

/-- The high word first, then the low word. -/
def ntoh64 (str : List UInt8) : UInt64 :=
  ((ntoh32 str).toUInt64 <<< 32) + (ntoh32 (str.drop 4)).toUInt64

@[simp] theorem length_hton16 (val : UInt16) : (hton16 val).length = 2 :=
  BigEndian.length_encode ..

@[simp] theorem length_hton32 (val : UInt32) : (hton32 val).length = 4 :=
  BigEndian.length_encode ..

@[simp] theorem length_hton64 (val : UInt64) : (hton64 val).length = 8 := by
  rw [hton64, List.length_append, length_hton32, length_hton32]

@[simp] theorem ntoh16_hton16 (val : UInt16) : ntoh16 (hton16 val) = val := by
  rw [ntoh16, List.take_of_length_le (length_hton16 val).le, hton16,
    BigEndian.decode_encode_of_lt val.toNat_lt, UInt16.ofNat_toNat]

@[simp] theorem ntoh32_hton32 (val : UInt32) : ntoh32 (hton32 val) = val := by
  rw [ntoh32, List.take_of_length_le (length_hton32 val).le, hton32,
    BigEndian.decode_encode_of_lt val.toNat_lt, UInt32.ofNat_toNat]

/-- A 32-bit read looks at its first four bytes only. -/
theorem ntoh32_append (val : UInt32) (rest : List UInt8) : ntoh32 (hton32 val ++ rest) = val := by
  rw [ntoh32, List.take_left' (length_hton32 val), hton32,
    BigEndian.decode_encode_of_lt val.toNat_lt, UInt32.ofNat_toNat]

private theorem toNat_words (high low : UInt32) :
    ((high.toUInt64 <<< 32) + low.toUInt64).toNat = high.toNat * 2 ^ 32 + low.toNat := by
  have := high.toNat_lt
  have := low.toNat_lt
  simp only [UInt64.toNat_add, UInt64.toNat_shiftLeft, UInt32.toNat_toUInt64, UInt64.reduceToNat,
    Nat.shiftLeft_eq, Nat.reduceMod, Nat.reducePow]
  omega

private theorem toNat_high (val : UInt64) :
    (val >>> 32).toUInt32.toNat = val.toNat / 2 ^ 32 := by
  have := val.toNat_lt
  simp only [UInt64.toNat_toUInt32, UInt64.toNat_shiftRight, UInt64.reduceToNat,
    Nat.shiftRight_eq_div_pow, Nat.reduceMod, Nat.reducePow]
  omega

@[simp] theorem ntoh64_hton64 (val : UInt64) : ntoh64 (hton64 val) = val := by
  rw [ntoh64, hton64, ntoh32_append, List.drop_left' (length_hton32 _), ntoh32_hton32]
  apply UInt64.toNat_inj.mp
  rw [toNat_words, toNat_high, UInt64.toNat_toUInt32]
  omega

/-! ## The numbers read -/

theorem toNat_ntoh16 {str : List UInt8} (length : str.length = 2) :
    (ntoh16 str).toNat = BigEndian.decode str := by
  have bound := BigEndian.decode_lt str
  rw [length] at bound
  rw [ntoh16, List.take_of_length_le length.le, UInt16.toNat_ofNat_of_lt' bound]

theorem toNat_ntoh32 {str : List UInt8} (length : str.length = 4) :
    (ntoh32 str).toNat = BigEndian.decode str := by
  have bound := BigEndian.decode_lt str
  rw [length] at bound
  rw [ntoh32, List.take_of_length_le length.le, UInt32.toNat_ofNat_of_lt' bound]

theorem toNat_ntoh64 {str : List UInt8} (length : str.length = 8) :
    (ntoh64 str).toNat = BigEndian.decode str := by
  have front : (str.take 4).length = 4 := by rw [List.length_take, length]; rfl
  have back : (str.drop 4).length = 4 := by rw [List.length_drop, length]
  have first : ntoh32 str = ntoh32 (str.take 4) := by
    rw [ntoh32, ntoh32, List.take_take, Nat.min_self]
  calc (ntoh64 str).toNat
      = (ntoh32 str).toNat * 2 ^ 32 + (ntoh32 (str.drop 4)).toNat := toNat_words _ _
    _ = BigEndian.decode (str.take 4) * 256 ^ (str.drop 4).length +
          BigEndian.decode (str.drop 4) := by
        rw [first, toNat_ntoh32 front, toNat_ntoh32 back, back]
        norm_num
    _ = BigEndian.decode (str.take 4 ++ str.drop 4) := (BigEndian.decode_append _ _).symm
    _ = BigEndian.decode str := by rw [List.take_append_drop]

/-! ## Writing back -/

/-- Writing back what was read from two bytes gives the two bytes. -/
theorem hton16_ntoh16 {str : List UInt8} (length : str.length = 2) : hton16 (ntoh16 str) = str := by
  have bound := BigEndian.decode_lt str
  have back := BigEndian.encode_decode str
  rw [length] at bound back
  rw [hton16, ntoh16, List.take_of_length_le length.le, UInt16.toNat_ofNat_of_lt' bound, back]

theorem hton32_ntoh32 {str : List UInt8} (length : str.length = 4) : hton32 (ntoh32 str) = str := by
  have bound := BigEndian.decode_lt str
  have back := BigEndian.encode_decode str
  rw [length] at bound back
  rw [hton32, ntoh32, List.take_of_length_le length.le, UInt32.toNat_ofNat_of_lt' bound, back]

theorem hton64_ntoh64 {str : List UInt8} (length : str.length = 8) : hton64 (ntoh64 str) = str := by
  have halves : str = str.take 4 ++ str.drop 4 := (List.take_append_drop 4 str).symm
  have front : (str.take 4).length = 4 := by rw [List.length_take, length]; rfl
  have back : (str.drop 4).length = 4 := by rw [List.length_drop, length]
  have first : ntoh32 str = ntoh32 (str.take 4) := by
    rw [ntoh32, ntoh32, List.take_take, Nat.min_self]
  have lowLt := (ntoh32 (str.drop 4)).toNat_lt
  have high : (ntoh64 str >>> 32).toUInt32 = ntoh32 str := by
    apply UInt32.toNat_inj.mp
    rw [toNat_high, ntoh64, toNat_words]
    omega
  have low : (ntoh64 str).toUInt32 = ntoh32 (str.drop 4) := by
    apply UInt32.toNat_inj.mp
    rw [UInt64.toNat_toUInt32, ntoh64, toNat_words]
    omega
  rw [hton64, high, low, first, hton32_ntoh32 front, hton32_ntoh32 back, ← halves]

end Cube.Eco.Net
