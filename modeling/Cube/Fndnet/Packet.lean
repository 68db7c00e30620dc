import Mathlib.Data.List.Induction
import Mathlib.Tactic.Positivity
import Cube.Lib.Buffer

/-! # Packets of the BASE net library

`WnPacket` of `WnPacket.cpp`, with the constants of `ConstDef.h` and the integer streams of
`WnUtility.h`. A packet is a start mark, a header of eight bytes, the body and an end mark.
-/

namespace Cube.Fndnet

/-- A number as it is kept in an `unsigned int`. -/
def word (n : Nat) : Nat := n % 2 ^ 32

theorem word_of_lt {n : Nat} (fits : n < 2 ^ 32) : word n = n := Nat.mod_eq_of_lt fits

def STX : UInt8 := 0x02

def ETX : UInt8 := 0x03

def PACKET_START_FLAG : UInt8 := 0x78

def HEARTBEAT_BITFLAG : UInt8 := 0x01

def RECV_BUFFER_SIZE : Nat := 1024 * 1024

/-! ## Integers as streams -/

/-- `IntegerToStream`: the last byte is stored first. -/
def integerToStream : (unStreamSize : Nat) → Nat → List UInt8
  | 0, _ => []
  | unStreamSize + 1, int => integerToStream unStreamSize (int >>> 8) ++ [UInt8.ofNat (int &&& 0xFF)]

/-- `StreamToInteger`, into an `unsigned int`. -/
def streamToInteger (pbStream : List UInt8) : Nat :=
  pbStream.foldl (fun int byte => word (int <<< 8 ||| byte.toNat)) 0

@[simp] theorem length_integerToStream (size int : Nat) :
    (integerToStream size int).length = size := by
  induction size generalizing int with
  | zero => rfl
  | succ size ih => rw [integerToStream, List.length_append, ih, List.length_singleton]

theorem streamToInteger_lt (stream : List UInt8) : streamToInteger stream < 2 ^ 32 := by
  induction stream using List.reverseRecOn with
  | nil => decide
  | append_singleton stream byte ih =>
      rw [streamToInteger, List.foldl_append]
      exact Nat.mod_lt _ (by decide)

/-- A byte that is shifted in. -/
theorem shifted_in (int : Nat) (byte : UInt8) : int <<< 8 ||| byte.toNat = int * 256 + byte.toNat := by
  rw [← Nat.shiftLeft_add_eq_or_of_lt byte.toNat_lt, Nat.shiftLeft_eq]

/-- The stream of a word reads as the word. -/
theorem streamToInteger_integerToStream (size int : Nat) (fits : size ≤ 4) :
    streamToInteger (integerToStream size int) = int % 256 ^ size := by
  induction size generalizing int with
  | zero => rw [Nat.pow_zero, Nat.mod_one]; rfl
  | succ size ih =>
      have high := ih (int >>> 8) (by omega)
      have low : (UInt8.ofNat (int &&& 0xFF)).toNat = int % 256 := by
        rw [show (0xFF : Nat) = 2 ^ 8 - 1 from rfl, Nat.and_two_pow_sub_one_eq_mod]
        exact Nat.mod_mod int 256
      have small : int % 256 ^ (size + 1) < 2 ^ 32 :=
        Nat.lt_of_lt_of_le (Nat.mod_lt _ (by positivity))
          (Nat.pow_le_pow_right (show 0 < 256 by decide) (show size + 1 ≤ 4 from fits))
      have joined : int >>> 8 % 256 ^ size * 256 + int % 256 = int % 256 ^ (size + 1) := by
        rw [Nat.shiftRight_eq_div_pow, Nat.pow_succ 256, Nat.mul_comm (256 ^ size), Nat.mod_mul,
          Nat.add_comm, Nat.mul_comm 256]
      rw [streamToInteger, integerToStream, List.foldl_append]
      change word (streamToInteger (integerToStream size (int >>> 8)) <<< 8 ||| _) = _
      rw [high, shifted_in, low, joined, word_of_lt small]

/-! ## Packets -/

/-- `TAG_PACKET_HEADER` as the bytes it has in memory. -/
abbrev Header := List UInt8

namespace Header

def size : Nat := 8

variable (tHeader : Header)

def bHeaderLen : UInt8 := tHeader.getD 1 0

def bPacketLen : List UInt8 := tHeader.drop 4

/-- The header that the sending constructor builds. -/
def ofBody (unSize : Nat) (bCheckIndex bFlag : UInt8) : Header :=
  [PACKET_START_FLAG, UInt8.ofNat size, bCheckIndex, bFlag] ++ integerToStream 4 unSize

end Header

/-- `WnPacket`: what `m_pbPacketData` holds. -/
structure WnPacket where
  data : List UInt8
  deriving DecidableEq, Repr

namespace WnPacket

/-- The bytes of a packet. -/
def bytes (tHeader : Header) (pbData : List UInt8) : List UInt8 :=
  STX :: tHeader ++ pbData ++ [ETX]

/-- The constructor of the receiver. -/
def ofReceived (tHeader : Header) (pbData : List UInt8) : WnPacket :=
  ⟨bytes tHeader pbData⟩

/-- The constructor of the sender. The size is an `unsigned int`; the array is allocated in
the size of the packet cut to one, and nothing is built where the packet does not fit in. -/
def ofBody (pbData : List UInt8) (bCheckIndex bFlag : UInt8) : Option WnPacket :=
  let unSize := pbData.length
  let unPacketLength := word (unSize + 1 + 1 + Header.size)
  let written := bytes (.ofBody unSize bCheckIndex bFlag) pbData
  if unSize < 2 ^ 32 ∧ written.length ≤ unPacketLength then some ⟨written⟩ else none

/-- `GetBodyData` and `GetBodyLength`. -/
def getBodyData (packet : WnPacket) : List UInt8 :=
  (packet.data.drop (1 + Header.size)).take (packet.data.length - (1 + 1 + Header.size))

/-- `IsHeartBeatPacket`: a bit of `bFlag`. -/
def isHeartBeatPacket (packet : WnPacket) : Bool :=
  packet.data.getD (1 + 3) 0 &&& HEARTBEAT_BITFLAG != 0

end WnPacket

@[simp] theorem Header.length_ofBody (unSize : Nat) (index flag : UInt8) :
    (Header.ofBody unSize index flag).length = 8 := rfl

/-- The header of a packet announces the size of the body. -/
theorem Header.announced_ofBody {unSize : Nat} (fits : unSize < 2 ^ 32) (index flag : UInt8) :
    streamToInteger (Header.ofBody unSize index flag).bPacketLen = unSize := by
  change streamToInteger (integerToStream 4 unSize) = unSize
  rw [streamToInteger_integerToStream 4 unSize (Nat.le_refl 4), Nat.mod_eq_of_lt (show unSize < 256 ^ 4 from fits)]

/-- A packet is built exactly for a body that leaves room for the other ten bytes. -/
theorem WnPacket.ofBody_eq_some {pbData : List UInt8} {index flag : UInt8} {packet : WnPacket} :
    WnPacket.ofBody pbData index flag = some packet ↔ pbData.length + 10 < 2 ^ 32 ∧
      packet = ⟨bytes (.ofBody pbData.length index flag) pbData⟩ := by
  have written : (bytes (.ofBody pbData.length index flag) pbData).length =
      pbData.length + 10 := by
    simp only [bytes, List.length_append, List.length_cons, Header.length_ofBody, List.length_nil]
    omega
  have room : pbData.length < 2 ^ 32 ∧ pbData.length + 10 ≤ word (pbData.length + 1 + 1 + 8) ↔
      pbData.length + 10 < 2 ^ 32 := by
    rw [word]
    omega
  simp only [WnPacket.ofBody, written, Header.size, room]
  by_cases fits : pbData.length + 10 < 2 ^ 32
  · simp only [fits, if_true, true_and, Option.some.injEq, eq_comm]
  · simp only [fits, if_false, false_and, reduceCtorEq]

end Cube.Fndnet
