import Mathlib.Data.List.GetD
import Mathlib.Data.Nat.ModEq
import Mathlib.Tactic.Ring
import Cube.Lib.Buffer

/-! # Fixed-width big-endian numerals

The most significant byte comes first. Encoding keeps the low `width` bytes of a
number; decoding reads any byte string as a number. On strings of the given
width and numbers that fit it, each undoes the other.
-/

namespace BigEndian

/-- The low `width` bytes of a number, the most significant first. -/
def encode : (width : Nat) → Nat → List UInt8
  | 0, _ => []
  | width + 1, number => UInt8.ofNat (number / 256 ^ width) :: encode width number

/-- The number written by a byte string, the most significant byte first. -/
def decode : List UInt8 → Nat
  | [] => 0
  | byte :: rest => byte.toNat * 256 ^ rest.length + decode rest

@[simp] theorem length_encode (width number : Nat) : (encode width number).length = width := by
  induction width with
  | zero => rfl
  | succ width ih => simp only [encode, List.length_cons, ih]

/-- A byte string of a given length denotes a number below that power of 256. -/
theorem decode_lt (bytes : List UInt8) : decode bytes < 256 ^ bytes.length := by
  induction bytes with
  | nil => simp [decode]
  | cons byte rest ih =>
      have digit : byte.toNat + 1 ≤ 256 := byte.toNat_lt
      calc decode (byte :: rest)
          < byte.toNat * 256 ^ rest.length + 256 ^ rest.length := Nat.add_lt_add_left ih _
        _ = (byte.toNat + 1) * 256 ^ rest.length := by ring
        _ ≤ 256 * 256 ^ rest.length := Nat.mul_le_mul_right _ digit
        _ = 256 ^ (byte :: rest).length := by rw [List.length_cons, pow_succ, mul_comm]

theorem decode_append (high low : List UInt8) :
    decode (high ++ low) = decode high * 256 ^ low.length + decode low := by
  induction high with
  | nil => rw [List.nil_append, decode, Nat.zero_mul, Nat.zero_add]
  | cons byte high ih =>
      rw [List.cons_append, decode, decode, ih, List.length_append, pow_add]
      ring

/-- Reading an encoding gives the number, up to the width. -/
theorem decode_encode (width number : Nat) :
    decode (encode width number) = number % 256 ^ width := by
  induction width with
  | zero => simp [encode, decode, Nat.mod_one]
  | succ width ih =>
      have digit : (UInt8.ofNat (number / 256 ^ width)).toNat = number / 256 ^ width % 256 :=
        UInt8.toNat_ofNat'
      rw [encode, decode, length_encode, ih, digit, pow_succ, Nat.mod_mul, Nat.add_comm,
        Nat.mul_comm]

/-- Reading the encoding of a number that fits gives the number. -/
theorem decode_encode_of_lt {width number : Nat} (fits : number < 256 ^ width) :
    decode (encode width number) = number := by
  rw [decode_encode, Nat.mod_eq_of_lt fits]

/-- The encoding depends on the number only up to the width. -/
theorem encode_congr {width first second : Nat}
    (same : first % 256 ^ width = second % 256 ^ width) :
    encode width first = encode width second := by
  induction width with
  | zero => rfl
  | succ width ih =>
      have low : first % 256 ^ width = second % 256 ^ width :=
        Nat.ModEq.of_mul_right 256 (show first % (256 ^ width * 256) = _ from same)
      have digit : first / 256 ^ width % 256 = second / 256 ^ width % 256 := by
        have split := same
        rw [pow_succ, Nat.mod_mul, Nat.mod_mul, low] at split
        exact Nat.eq_of_mul_eq_mul_left (pow_pos (by decide) width) (Nat.add_left_cancel split)
      simp only [encode, ih low]
      congr 1
      exact UInt8.toNat_inj.mp (UInt8.toNat_ofNat'.trans (digit.trans UInt8.toNat_ofNat'.symm))

/-- Writing the number read from a byte string gives the byte string back. -/
theorem encode_decode (bytes : List UInt8) : encode bytes.length (decode bytes) = bytes := by
  induction bytes with
  | nil => rfl
  | cons byte rest ih =>
      have tailLt := decode_lt rest
      have positive : 0 < 256 ^ rest.length := pow_pos (by decide) _
      have head : decode (byte :: rest) / 256 ^ rest.length = byte.toNat := by
        rw [decode, Nat.mul_comm, Nat.mul_add_div positive, Nat.div_eq_of_lt tailLt, Nat.add_zero]
      have tail : encode rest.length (decode (byte :: rest)) = encode rest.length (decode rest) :=
        encode_congr (by rw [decode, Nat.mul_comm, Nat.mul_add_mod])
      rw [List.length_cons, encode, head, tail, ih, UInt8.ofNat_toNat]

end BigEndian

/-! # Masking with a repeating key

Each byte is combined with the byte of the key at its position modulo the length of the
key. Masking twice from the same position of the key gives the bytes back.
-/

namespace Masking

/-- Mask from a position of the key on. -/
def mask (key : List UInt8) : (pos : Nat) → List UInt8 → List UInt8
  | _, [] => []
  | pos, byte :: rest => (byte ^^^ key.getD (pos % key.length) 0) :: mask key (pos + 1) rest

@[simp] theorem length_mask (key : List UInt8) (pos : Nat) (bytes : List UInt8) :
    (mask key pos bytes).length = bytes.length := by
  induction bytes generalizing pos with
  | nil => rfl
  | cons byte rest ih => rw [mask, List.length_cons, ih, List.length_cons]

variable {ε : Type}

/-- Mask in place: `count` bytes from `start + pos` on, one after the other. -/
def maskInPlace (key : List UInt8) (start : Nat) :
    (count pos : Nat) → List UInt8 → Outcome ε (List UInt8)
  | 0, _, buffer => .ok buffer
  | count + 1, pos, buffer => do
      let byte ← Buffer.read buffer (start + pos)
      let keyByte ← Buffer.read key (pos % key.length)
      let buffer ← Buffer.write buffer (start + pos) (byte ^^^ keyByte)
      maskInPlace key start count (pos + 1) buffer

/-- Masking a part of the buffer in place masks exactly that part. -/
theorem maskInPlace_append {key : List UInt8} (nonempty : key ≠ []) (start pos : Nat)
    {front : List UInt8} (at_front : start + pos = front.length) (part back : List UInt8) :
    (maskInPlace key start part.length pos (front ++ (part ++ back)) :
      Outcome ε (List UInt8)) = .ok (front ++ (mask key pos part ++ back)) := by
  induction part generalizing pos front with
  | nil => rfl
  | cons byte part ih =>
      have inside : pos % key.length < key.length :=
        Nat.mod_lt pos (List.length_pos_iff.mpr nonempty)
      have keyed : (Buffer.read key (pos % key.length) : Outcome ε UInt8) =
          .ok (key.getD (pos % key.length) 0) := by
        rw [List.getD_eq_getElem key 0 inside]
        exact Buffer.read_eq_ok.mpr (List.getElem?_eq_getElem inside)
      have moved : front ++ (byte ^^^ key.getD (pos % key.length) 0) :: (part ++ back) =
          (front ++ [byte ^^^ key.getD (pos % key.length) 0]) ++ (part ++ back) := by
        rw [List.append_assoc, List.singleton_append]
      rw [List.length_cons, maskInPlace, List.cons_append, Buffer.read_append_at at_front,
        Outcome.ok_bind, keyed, Outcome.ok_bind, Buffer.write_append at_front, Outcome.ok_bind,
        moved, ih (pos + 1) (by rw [List.length_append, ← at_front]; rfl), mask, List.append_assoc,
        List.singleton_append, List.cons_append]

end Masking
