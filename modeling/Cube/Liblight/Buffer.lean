import Mathlib.Algebra.Group.Int.Defs
import Mathlib.Algebra.Group.Nat.Defs
import Mathlib.Data.List.Basic
import Cube.Lib.Buffer

/-! # Buffers with a reader and a writer index

`Buffer`: prependable bytes, readable bytes and writable bytes in one vector. Where an assertion
fails or the vector is asked to be larger than it can be, nothing is returned.
-/

namespace Cube.Liblight

/-- A number as it is kept in a `size_t`. -/
def sizeT (n : Int) : Nat := (n % 2 ^ 64).toNat

theorem sizeT_of_lt {n : Int} (low : 0 ≤ n) (high : n < 2 ^ 64) : (sizeT n : Int) = n := by
  rw [sizeT, Int.emod_eq_of_lt low high]
  exact Int.toNat_of_nonneg low

theorem sizeT_of_neg {n : Int} (low : -2 ^ 63 ≤ n) (negative : n < 0) :
    (sizeT n : Int) = n + 2 ^ 64 := by
  have same : n % 2 ^ 64 = n + 2 ^ 64 := by omega
  rw [sizeT, same]
  exact Int.toNat_of_nonneg (by omega)

structure Buffer where
  buffer : List UInt8
  readerIndex : Nat
  writerIndex : Nat
  deriving DecidableEq, Repr

namespace Buffer

def kCheapPrepend : Nat := 8

def kInitialSize : Nat := 8 * 1024

/-- The constructor. -/
def make : Buffer :=
  ⟨List.replicate (kCheapPrepend + kInitialSize) 0, kCheapPrepend, kCheapPrepend⟩

variable (b : Buffer)

def readableBytes : Nat := sizeT (b.writerIndex - b.readerIndex)

def writableBytes : Nat := sizeT (b.buffer.length - b.writerIndex)

def prependableBytes : Nat := b.readerIndex

/-- The bytes from `peek` to `beginWrite`. -/
def peek : List UInt8 := (b.buffer.drop b.readerIndex).take (b.writerIndex - b.readerIndex)

def retrieveAll : Buffer :=
  { b with readerIndex := kCheapPrepend, writerIndex := kCheapPrepend }

def retrieve (len : Nat) : Option Buffer :=
  if len ≤ b.readableBytes then
    if len < b.readableBytes then some { b with readerIndex := b.readerIndex + len }
    else some b.retrieveAll
  else none

def hasCapacity (len : Nat) : Bool :=
  decide (sizeT (len + kCheapPrepend) ≤ sizeT (b.writableBytes + b.prependableBytes))

/-- The readable bytes are moved to the front. -/
def remove : Option Buffer :=
  if kCheapPrepend < b.readerIndex then
    some ⟨Buffer.overwrite b.buffer kCheapPrepend b.peek, kCheapPrepend,
      kCheapPrepend + b.readableBytes⟩
  else none

/-- `resize` of the vector, which throws from the largest size on. -/
def resize (size : Nat) : Option Buffer :=
  if size < 2 ^ 63 then
    some { b with buffer := b.buffer.take size ++ List.replicate (size - b.buffer.length) 0 }
  else none

def makeSpace (len : Nat) : Option Buffer :=
  if b.hasCapacity len then b.remove else b.resize (sizeT (b.writerIndex + len))

def ensureWritableBytes (len : Nat) : Option Buffer :=
  (if b.writableBytes < len then b.makeSpace len else some b).bind fun b =>
    if len ≤ b.writableBytes then some b else none

def hasWritten (len : Nat) : Option Buffer :=
  if len ≤ b.writableBytes then some { b with writerIndex := b.writerIndex + len } else none

/-- Bytes that are put at `beginWrite`. -/
def write (data : List UInt8) : Buffer :=
  { b with buffer := Buffer.overwrite b.buffer b.writerIndex data }

def append (data : List UInt8) : Option Buffer :=
  (b.ensureWritableBytes data.length).bind fun b => (b.write data).hasWritten data.length

/-! ## Buffers that never grow -/

/-- The invariant of a buffer. -/
structure Ok (b : Buffer) : Prop where
  prepend : kCheapPrepend ≤ b.readerIndex
  readable : b.readerIndex ≤ b.writerIndex
  writable : b.writerIndex ≤ b.buffer.length

/-- A buffer of the initial size. -/
structure Fits (b : Buffer) : Prop extends b.Ok where
  size : b.buffer.length = kCheapPrepend + kInitialSize

variable {b}

theorem Fits.bounds (fits : b.Fits) : 8 ≤ b.readerIndex ∧ b.readerIndex ≤ b.writerIndex ∧
    b.writerIndex ≤ 8200 ∧ b.buffer.length = 8200 := by
  refine ⟨fits.prepend, fits.readable, ?_, fits.size⟩
  exact Nat.le_trans fits.writable (Nat.le_of_eq fits.size)

theorem Fits.length_peek (fits : b.Fits) :
    b.peek.length = b.writerIndex - b.readerIndex := by
  obtain ⟨_, _, high, size⟩ := fits.bounds
  rw [peek, List.length_take, List.length_drop, size]
  omega

theorem Fits.length_peek_le (fits : b.Fits) : b.peek.length ≤ 8192 := by
  have := fits.bounds
  rw [fits.length_peek]
  omega

theorem Fits.readableBytes (fits : b.Fits) : b.readableBytes = b.peek.length := by
  obtain ⟨_, order, high, _⟩ := fits.bounds
  have exactly := sizeT_of_lt (n := (b.writerIndex : Int) - b.readerIndex) (by omega) (by omega)
  rw [fits.length_peek]
  rw [Buffer.readableBytes]
  omega

theorem Fits.writableBytes (fits : b.Fits) : b.writableBytes = 8200 - b.writerIndex := by
  obtain ⟨_, _, high, size⟩ := fits.bounds
  have exactly := sizeT_of_lt (n := (b.buffer.length : Int) - b.writerIndex) (by omega) (by omega)
  rw [Buffer.writableBytes]
  omega

/-- A buffer has room for its prependable and its writable bytes. -/
theorem Fits.hasCapacity_iff (fits : b.Fits) {len : Nat} (small : len < 2 ^ 32) :
    b.hasCapacity len = true ↔ len + b.peek.length ≤ 8192 := by
  obtain ⟨low, order, high, size⟩ := fits.bounds
  have first := sizeT_of_lt (n := (len : Int) + kCheapPrepend) (by simp only [kCheapPrepend]; omega)
    (by simp only [kCheapPrepend]; omega)
  have second := sizeT_of_lt (n := (b.writableBytes : Int) + b.prependableBytes) (by omega)
    (by rw [fits.writableBytes, prependableBytes]; omega)
  rw [hasCapacity, decide_eq_true_iff, fits.length_peek]
  rw [fits.writableBytes, prependableBytes] at second ⊢
  simp only [kCheapPrepend] at first ⊢
  omega

theorem fits_make : make.Fits := by
  refine ⟨⟨by decide, by decide, ?_⟩, List.length_replicate⟩
  rw [make, List.length_replicate]
  decide

@[simp] theorem peek_make : make.peek = [] := by
  rw [peek, make]
  exact List.take_zero

/-- A buffer with the same vector and other indices. -/
theorem Fits.move (fits : b.Fits) {reader writer : Nat} (low : 8 ≤ reader)
    (order : reader ≤ writer) (high : writer ≤ 8200) :
    Fits { b with readerIndex := reader, writerIndex := writer } := by
  refine ⟨⟨low, order, ?_⟩, fits.size⟩
  rw [show b.buffer.length = 8200 from fits.size]
  exact high

theorem Fits.retrieveAll (fits : b.Fits) : b.retrieveAll.Fits :=
  fits.move (Nat.le_refl 8) (Nat.le_refl 8) (by decide)

@[simp] theorem peek_retrieveAll : b.retrieveAll.peek = [] := by
  rw [peek, Buffer.retrieveAll, Nat.sub_self, List.take_zero]

/-- Bytes that are readable are retrieved, and a buffer that is empty starts again. -/
theorem Fits.retrieve (fits : b.Fits) {len : Nat} (inside : len ≤ b.peek.length) :
    ∃ after, b.retrieve len = some after ∧ after.Fits ∧ after.peek = b.peek.drop len ∧
      after.writerIndex ≤ b.writerIndex ∧ (after.peek = [] → after.writerIndex = 8) := by
  obtain ⟨low, order, high, size⟩ := fits.bounds
  have length := fits.length_peek
  rw [Buffer.retrieve, fits.readableBytes, if_pos inside]
  by_cases part : len < b.peek.length
  · rw [if_pos part]
    have split : Buffer.peek { b with readerIndex := b.readerIndex + len } = b.peek.drop len := by
      rw [Buffer.peek, Buffer.peek, List.drop_take, List.drop_drop, Nat.sub_sub]
    refine ⟨_, rfl, fits.move (by omega) (by omega) high, split, Nat.le_refl _, fun empty => ?_⟩
    rw [split, List.drop_eq_nil_iff] at empty
    omega
  · rw [if_neg part]
    refine ⟨_, rfl, fits.retrieveAll, ?_, ?_, fun _ => rfl⟩
    · rw [peek_retrieveAll, List.drop_eq_nil_of_le (Nat.le_of_not_lt part)]
    · exact Nat.le_trans low order

/-- A buffer is compacted. -/
theorem Fits.remove (fits : b.Fits) (behind : 8 < b.readerIndex) :
    ∃ after, b.remove = some after ∧ after.Fits ∧ after.peek = b.peek ∧
      after.writerIndex = 8 + b.peek.length := by
  obtain ⟨low, order, high, size⟩ := fits.bounds
  have length := fits.length_peek
  have inside : 8 + b.peek.length ≤ b.buffer.length := by omega
  have same := Buffer.length_overwrite inside
  rw [Buffer.remove, if_pos (show kCheapPrepend < b.readerIndex from behind), fits.readableBytes]
  refine ⟨_, rfl, ⟨⟨Nat.le_refl 8, Nat.le_add_right 8 _, ?_⟩, ?_⟩, ?_, rfl⟩
  · exact Nat.le_trans inside (Nat.le_of_eq same.symm)
  · exact same.trans size
  · rw [Buffer.peek.eq_def]
    dsimp only [kCheapPrepend]
    have front : (b.buffer.take 8).length = 8 := by rw [List.length_take]; omega
    rw [Nat.add_sub_cancel_left, Buffer.overwrite, List.append_assoc, List.drop_left' front,
      List.take_left]

/-- Room is made for bytes that fit into an empty buffer together with the readable ones. -/
theorem Fits.ensureWritableBytes (fits : b.Fits) {len : Nat} (room : len + b.peek.length ≤ 8192) :
    ∃ after, b.ensureWritableBytes len = some after ∧ after.Fits ∧ after.peek = b.peek ∧
      len ≤ after.writableBytes := by
  obtain ⟨low, order, high, size⟩ := fits.bounds
  have length := fits.length_peek
  have writable := fits.writableBytes
  rw [Buffer.ensureWritableBytes]
  by_cases short : b.writableBytes < len
  · obtain ⟨after, moved, fitsAfter, same, written⟩ := fits.remove (by omega)
    have enough : len ≤ after.writableBytes := by
      rw [fitsAfter.writableBytes, written]
      omega
    rw [if_pos short, makeSpace, if_pos ((fits.hasCapacity_iff (by omega)).mpr room), moved,
      Option.bind_some, if_pos enough]
    exact ⟨after, rfl, fitsAfter, same, enough⟩
  · rw [if_neg short, Option.bind_some, if_pos (Nat.le_of_not_lt short)]
    exact ⟨b, rfl, fits, rfl, Nat.le_of_not_lt short⟩

/-- Bytes that were put at `beginWrite` become readable. -/
theorem Fits.write (fits : b.Fits) {data : List UInt8} (inside : data.length ≤ b.writableBytes) :
    ∃ after, (b.write data).hasWritten data.length = some after ∧ after.Fits ∧
      after.peek = b.peek ++ data ∧ after.readerIndex = b.readerIndex := by
  obtain ⟨low, order, high, size⟩ := fits.bounds
  have length := fits.length_peek
  have writable := fits.writableBytes
  have within : b.writerIndex + data.length ≤ b.buffer.length := by omega
  have same : (b.write data).buffer.length = b.buffer.length := Buffer.length_overwrite within
  have fitsWrite : (b.write data).Fits :=
    ⟨⟨low, order, Nat.le_trans fits.writable (Nat.le_of_eq same.symm)⟩, same.trans size⟩
  have writableWrite : (b.write data).writableBytes = b.writableBytes := by
    rw [fitsWrite.writableBytes, writable]
    rfl
  rw [hasWritten, writableWrite, if_pos inside]
  refine ⟨_, rfl, ?_, ?_, rfl⟩
  · exact fitsWrite.move low (Nat.le_add_right_of_le order)
      (show b.writerIndex + data.length ≤ 8200 by omega)
  · rw [Buffer.peek.eq_def]
    dsimp only [Buffer.write]
    have front : (b.buffer.take b.writerIndex).length = b.writerIndex := by
      rw [List.length_take]
      omega
    have readable : (b.buffer.take b.writerIndex).drop b.readerIndex = b.peek := by
      rw [Buffer.peek, List.drop_take]
    rw [Buffer.overwrite, List.append_assoc, List.drop_append_of_le_length (by omega), readable,
      ← List.append_assoc, List.take_left' (by rw [List.length_append]; omega)]

/-- Bytes are appended when there is room. -/
theorem Fits.append (fits : b.Fits) {data : List UInt8} (inside : data.length ≤ b.writableBytes) :
    ∃ after, b.append data = some after ∧ after.Fits ∧ after.peek = b.peek ++ data ∧
      after.readerIndex = b.readerIndex := by
  rw [Buffer.append, Buffer.ensureWritableBytes, if_neg (Nat.not_lt.mpr inside), Option.bind_some,
    if_pos inside, Option.bind_some]
  exact fits.write inside

end Buffer

end Cube.Liblight
