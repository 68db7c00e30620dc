import Mathlib.Data.UInt
import Cube.Lib.BigEndian
import Cube.Lib.BlockHash

/-! # SHA-1

The class `SHA1` of `sha1.cpp`, which takes a message byte by byte. Its block function is compared
with the compression of FIPS 180-1: one loop over eighty words, of which each after the sixteenth is
made of four earlier ones.
-/

namespace Cube.Eco

/-- Five words: the digest buffers `H`, and the word buffers `A` to `E`. -/
structure Words where
  a : UInt32
  b : UInt32
  c : UInt32
  d : UInt32
  e : UInt32
  deriving DecidableEq, Repr

structure SHA1 where
  h : Words
  lengthLow : UInt32
  lengthHigh : UInt32
  messageBlock : List UInt8
  messageBlockIndex : Nat
  computed : Bool
  corrupted : Bool
  deriving DecidableEq, Repr

namespace SHA1

/-! ## The code -/

/-- The digest buffers that `Reset` begins with. -/
def initial : Words := ⟨0x67452301, 0xEFCDAB89, 0x98BADCFE, 0x10325476, 0xC3D2E1F0⟩

def reset (sha : SHA1) : SHA1 :=
  { sha with
    lengthLow := 0, lengthHigh := 0, messageBlockIndex := 0, h := initial
    computed := false, corrupted := false }

/-- The constructor, on what the memory of the object holds. -/
def new (memory : SHA1) : SHA1 := memory.reset

def circularShift (bits word : UInt32) : UInt32 :=
  ((word <<< bits) &&& 0xFFFFFFFF) ||| ((word &&& 0xFFFFFFFF) >>> (32 - bits))

/-- A word of the first sixteen. -/
def firstWord (block : List UInt8) (t : Nat) : UInt32 :=
  (block.getD (t * 4) 0).toUInt32 <<< 24 ||| (block.getD (t * 4 + 1) 0).toUInt32 <<< 16 |||
    (block.getD (t * 4 + 2) 0).toUInt32 <<< 8 ||| (block.getD (t * 4 + 3) 0).toUInt32

/-- One turn of the loop that fills `W` from its seventeenth word on. -/
def pushWord (w : List UInt32) (t : Nat) : List UInt32 :=
  w ++ [circularShift 1
    (w.getD (t - 3) 0 ^^^ w.getD (t - 8) 0 ^^^ w.getD (t - 14) 0 ^^^ w.getD (t - 16) 0)]

/-- The word sequence `W`. -/
def wordSequence (block : List UInt8) : List UInt32 :=
  (List.range' 16 64).foldl pushWord ((List.range 16).map (firstWord block))

/-- One turn of the four loops, which differ in how `B`, `C` and `D` are mixed and in a constant. -/
def round (mix : UInt32 → UInt32 → UInt32 → UInt32) (k w : UInt32) (s : Words) : Words where
  a := (circularShift 5 s.a + mix s.b s.c s.d + s.e + w + k) &&& 0xFFFFFFFF
  b := s.a
  c := circularShift 30 s.b
  d := s.c
  e := s.d

def choose (b c d : UInt32) : UInt32 := (b &&& c) ||| (~~~b &&& d)
def parity (b c d : UInt32) : UInt32 := b ^^^ c ^^^ d
def majority (b c d : UInt32) : UInt32 := (b &&& c) ||| (b &&& d) ||| (c &&& d)

/-- One of the four loops. -/
def rounds (mix : UInt32 → UInt32 → UInt32 → UInt32) (k : UInt32) (first : Nat) (w : List UInt32)
    (s : Words) : Words :=
  (List.range' first 20).foldl (fun s t => round mix k (w.getD t 0) s) s

/-- The digest buffers behind a block. -/
def digestBlock (h : Words) (block : List UInt8) : Words :=
  let w := wordSequence block
  let s := rounds choose 0x5A827999 0 w h
  let s := rounds parity 0x6ED9EBA1 20 w s
  let s := rounds majority 0x8F1BBCDC 40 w s
  let s := rounds parity 0xCA62C1D6 60 w s
  { a := (h.a + s.a) &&& 0xFFFFFFFF
    b := (h.b + s.b) &&& 0xFFFFFFFF
    c := (h.c + s.c) &&& 0xFFFFFFFF
    d := (h.d + s.d) &&& 0xFFFFFFFF
    e := (h.e + s.e) &&& 0xFFFFFFFF }

def processMessageBlock (sha : SHA1) : SHA1 :=
  { sha with h := digestBlock sha.h sha.messageBlock, messageBlockIndex := 0 }

/-- `Message_Block[Message_Block_Index++] = byte`. -/
def put (sha : SHA1) (byte : UInt8) : Outcome Empty SHA1 := do
  let block ← Buffer.write sha.messageBlock sha.messageBlockIndex byte
  return { sha with messageBlock := block, messageBlockIndex := sha.messageBlockIndex + 1 }

def putZeros : Nat → SHA1 → Outcome Empty SHA1
  | 0, sha => .ok sha
  | count + 1, sha => do
      let sha ← sha.put 0
      putZeros count sha

/-- The loops of `PadMessage`, which run while the index is below a bound. -/
def zerosTo (bound : Nat) (sha : SHA1) : Outcome Empty SHA1 :=
  putZeros (bound - sha.messageBlockIndex) sha

/-- The last eight octets of the padding. -/
def lengthOctets (sha : SHA1) : List UInt8 :=
  [(sha.lengthHigh >>> 24 &&& 0xFF).toUInt8, (sha.lengthHigh >>> 16 &&& 0xFF).toUInt8,
    (sha.lengthHigh >>> 8 &&& 0xFF).toUInt8, (sha.lengthHigh &&& 0xFF).toUInt8,
    (sha.lengthLow >>> 24 &&& 0xFF).toUInt8, (sha.lengthLow >>> 16 &&& 0xFF).toUInt8,
    (sha.lengthLow >>> 8 &&& 0xFF).toUInt8, (sha.lengthLow &&& 0xFF).toUInt8]

/-- The block of the message is filled up to where the length stands. -/
def padBlock (sha : SHA1) : Outcome Empty SHA1 :=
  if sha.messageBlockIndex > 55 then do
    let sha ← sha.put 0x80
    let sha ← sha.zerosTo 64
    sha.processMessageBlock.zerosTo 56
  else do
    let sha ← sha.put 0x80
    sha.zerosTo 56

def padMessage (sha : SHA1) : Outcome Empty SHA1 := do
  let sha ← sha.padBlock
  let block ← Buffer.patch sha.messageBlock 56 sha.lengthOctets
  return { sha with messageBlock := block }.processMessageBlock

/-- `Result`: the digest, if true is returned. -/
def result (sha : SHA1) : Outcome Empty (Option Words × SHA1) :=
  if sha.corrupted then return (none, sha)
  else if sha.computed then return (some sha.h, sha)
  else do
    let sha ← sha.padMessage
    return (some sha.h, { sha with computed := true })

/-- The length grows by eight bits. -/
def countOctet (sha : SHA1) : SHA1 :=
  let low := (sha.lengthLow + 8) &&& 0xFFFFFFFF
  if low = 0 then
    let high := (sha.lengthHigh + 1) &&& 0xFFFFFFFF
    if high = 0 then { sha with lengthLow := low, lengthHigh := high, corrupted := true }
    else { sha with lengthLow := low, lengthHigh := high }
  else { sha with lengthLow := low }

/-- A block is processed once it is full. -/
def processFull (sha : SHA1) : SHA1 :=
  if sha.messageBlockIndex = 64 then sha.processMessageBlock else sha

/-- The loop of `Input`. -/
def inputLoop : (length : Nat) → (messageArray : List UInt8) → SHA1 → Outcome Empty SHA1
  | 0, _, sha => .ok sha
  | length + 1, messageArray, sha =>
      if sha.corrupted then .ok sha
      else
        match messageArray with
        | [] => .fault
        | octet :: messageArray => do
            let sha ← sha.put (octet &&& 0xFF)
            inputLoop length messageArray sha.countOctet.processFull

/-- `Input` of an array. -/
def input (sha : SHA1) (messageArray : List UInt8) (length : UInt32) : Outcome Empty SHA1 :=
  if length = 0 then .ok sha
  else if sha.computed || sha.corrupted then .ok { sha with corrupted := true }
  else inputLoop length.toNat messageArray sha

/-- `operator<<` of a text, which ends with NUL. -/
def inputText : List UInt8 → SHA1 → Outcome Empty SHA1
  | [], _ => .fault
  | p :: text, sha =>
      if p = 0 then .ok sha
      else do
        let sha ← sha.input [p] 1
        inputText text sha

/-! ## The compression -/

/-- A circular left shift of a word. -/
def rotl (count : Nat) (word : UInt32) : UInt32 := ⟨word.toBitVec.rotateLeft count⟩

/-- The words of a block: sixteen of it, and each later one from four before it. -/
def schedule (block : List UInt8) (t : Nat) : UInt32 :=
  if t < 16 then UInt32.ofNat (BigEndian.decode ((block.drop (t * 4)).take 4))
  else rotl 1 (schedule block (t - 3) ^^^ schedule block (t - 8) ^^^ schedule block (t - 14) ^^^
    schedule block (t - 16))

/-- How three words are mixed in each quarter of the loop. -/
def mixOf : Nat → UInt32 → UInt32 → UInt32 → UInt32
  | 0 => choose
  | 2 => majority
  | _ => parity

def constantOf : Nat → UInt32
  | 0 => 0x5A827999
  | 1 => 0x6ED9EBA1
  | 2 => 0x8F1BBCDC
  | _ => 0xCA62C1D6

def stepAt (block : List UInt8) (s : Words) (t : Nat) : Words where
  a := rotl 5 s.a + mixOf (t / 20) s.b s.c s.d + s.e + schedule block t + constantOf (t / 20)
  b := s.a
  c := rotl 30 s.b
  d := s.c
  e := s.d

/-- The compression of a block. -/
def compress (h : Words) (block : List UInt8) : Words :=
  let s := (List.range 80).foldl (stepAt block) h
  ⟨h.a + s.a, h.b + s.b, h.c + s.c, h.d + s.d, h.e + s.e⟩

/-- The length of a message in bits, behind the padding. -/
def lengthTail (message : List UInt8) : List UInt8 := BigEndian.encode 8 (8 * message.length)

/-- **The digest of a message.** -/
def digest (message : List UInt8) : Words :=
  BlockHash.fold compress 64 initial (BlockHash.padded 64 0x80 0 (lengthTail message) message)

theorem and_ones (word : UInt32) : word &&& 0xFFFFFFFF = word := UInt32.and_neg_one

theorem octet_and_ones (octet : UInt8) : octet &&& 0xFF = octet := UInt8.and_neg_one

theorem circularShift_eq {bits : UInt32} (positive : 0 < bits.toNat) (small : bits.toNat < 32)
    (word : UInt32) : circularShift bits word = rotl bits.toNat word := by
  rw [circularShift, and_ones, and_ones, rotl, ← UInt32.toBitVec_inj, UInt32.toBitVec_or,
    UInt32.toBitVec_shiftLeft, UInt32.toBitVec_shiftRight, BitVec.rotateLeft_def,
    Nat.mod_eq_of_lt small]
  simp
  congr 2 <;> omega

/-- Four octets that are shifted into a word. -/
theorem toNat_shifted_in (p q r s : UInt8) :
    (p.toUInt32 <<< 24 ||| q.toUInt32 <<< 16 ||| r.toUInt32 <<< 8 ||| s.toUInt32).toNat =
      BigEndian.decode [p, q, r, s] := by
  have first := p.toNat_lt
  have second := q.toNat_lt
  have third := r.toNat_lt
  have fourth := s.toNat_lt
  have high : p.toNat <<< 24 ||| q.toNat <<< 16 = (p.toNat * 256 + q.toNat) <<< 16 := by
    rw [← Nat.shiftLeft_add_eq_or_of_lt (b := q.toNat <<< 16) (by rw [Nat.shiftLeft_eq]; omega)]
    simp only [Nat.shiftLeft_eq]
    omega
  have middle : (p.toNat * 256 + q.toNat) <<< 16 ||| r.toNat <<< 8 =
      ((p.toNat * 256 + q.toNat) * 256 + r.toNat) <<< 8 := by
    rw [← Nat.shiftLeft_add_eq_or_of_lt (b := r.toNat <<< 8) (by rw [Nat.shiftLeft_eq]; omega)]
    simp only [Nat.shiftLeft_eq]
    omega
  have shifts : (p.toUInt32 <<< 24).toNat = p.toNat <<< 24 ∧
      (q.toUInt32 <<< 16).toNat = q.toNat <<< 16 ∧ (r.toUInt32 <<< 8).toNat = r.toNat <<< 8 := by
    simp only [UInt32.toNat_shiftLeft, UInt8.toNat_toUInt32, UInt32.reduceToNat, Nat.reduceMod,
      Nat.shiftLeft_eq]
    omega
  rw [UInt32.toNat_or, UInt32.toNat_or, UInt32.toNat_or, shifts.1, shifts.2.1, shifts.2.2, high,
    middle, UInt8.toNat_toUInt32, ← Nat.shiftLeft_add_eq_or_of_lt fourth, Nat.shiftLeft_eq]
  simp only [BigEndian.decode, List.length_cons, List.length_nil]
  omega

theorem firstWord_eq {block : List UInt8} {t : Nat} (inside : t * 4 + 4 ≤ block.length) :
    firstWord block t = UInt32.ofNat (BigEndian.decode ((block.drop (t * 4)).take 4)) := by
  have octets : (block.drop (t * 4)).take 4 = [block.getD (t * 4) 0, block.getD (t * 4 + 1) 0,
      block.getD (t * 4 + 2) 0, block.getD (t * 4 + 3) 0] := by
    have octet : ∀ i < 4, block.drop (t * 4 + i) =
        block.getD (t * 4 + i) 0 :: block.drop (t * 4 + i + 1) := by
      intro i less
      rw [List.drop_eq_getElem_cons (by omega), List.getD_eq_getElem _ _ (by omega)]
    have first : block.drop (t * 4) = block.getD (t * 4) 0 :: block.drop (t * 4 + 1) :=
      octet 0 (by decide)
    rw [first, octet 1 (by decide), octet 2 (by decide), octet 3 (by decide)]
    rfl
  rw [octets, ← toNat_shifted_in, UInt32.ofNat_toNat]
  rfl

/-- What stands in a sequence of words made by a function. -/
theorem getD_map_range (f : Nat → UInt32) {count i : Nat} (inside : i < count) :
    ((List.range count).map f).getD i 0 = f i := by
  rw [List.getD_eq_getElem?_getD, List.getElem?_map, List.getElem?_range inside]
  rfl

/-- The word sequence is the schedule. -/
theorem wordSequence_eq {block : List UInt8} (whole : block.length = 64) :
    wordSequence block = (List.range 80).map (schedule block) := by
  have filled : ∀ count, (List.range' 16 count).foldl pushWord
      ((List.range 16).map (firstWord block)) = (List.range (16 + count)).map (schedule block) := by
    intro count
    induction count with
    | zero =>
        refine List.map_congr_left fun t member => ?_
        have less := List.mem_range.mp member
        rw [firstWord_eq (by omega), schedule, if_pos less]
    | succ count ih =>
        rw [List.range'_1_concat, List.foldl_append, ih, List.foldl_cons, List.foldl_nil, pushWord,
          ← Nat.add_assoc, List.range_succ, List.map_append]
        refine congrArg _ (congrArg (fun word => [word]) ?_)
        rw [getD_map_range _ (by omega), getD_map_range _ (by omega), getD_map_range _ (by omega),
          getD_map_range _ (by omega), circularShift_eq (by decide) (by decide), schedule.eq_def block (16 + count),
          if_neg (by omega)]
        rfl
  exact filled 64

theorem round_eq {block : List UInt8} (whole : block.length = 64) {t : Nat} (inside : t < 80)
    (s : Words) :
    round (mixOf (t / 20)) (constantOf (t / 20)) ((wordSequence block).getD t 0) s =
      stepAt block s t := by
  rw [wordSequence_eq whole, getD_map_range _ inside, round, and_ones,
    circularShift_eq (by decide) (by decide), circularShift_eq (by decide) (by decide)]
  rfl

/-- One of the four loops is a quarter of the one loop. -/
theorem rounds_eq {block : List UInt8} (whole : block.length = 64) {quarter : Nat}
    (inside : quarter < 4) (s : Words) :
    rounds (mixOf quarter) (constantOf quarter) (20 * quarter) (wordSequence block) s =
      (List.range' (20 * quarter) 20).foldl (stepAt block) s := by
  refine List.foldl_ext _ _ _ fun s t member => ?_
  obtain ⟨low, high⟩ := List.mem_range'_1.mp member
  have within : t / 20 = quarter := by omega
  rw [← round_eq whole (by omega), within]

/-- **The block function.** The four loops over a block are the compression. -/
theorem digestBlock_eq {block : List UInt8} (whole : block.length = 64) (h : Words) :
    digestBlock h block = compress h block := by
  have parts : List.range 80 =
      List.range' 0 20 ++ List.range' 20 20 ++ List.range' 40 20 ++ List.range' 60 20 := by
    rw [List.range_eq_range', List.range'_append_1, List.range'_append_1, List.range'_append_1]
  have first (s : Words) : rounds choose 0x5A827999 0 (wordSequence block) s = _ :=
    rounds_eq whole (show 0 < 4 by decide) s
  have second (s : Words) : rounds parity 0x6ED9EBA1 20 (wordSequence block) s = _ :=
    rounds_eq whole (show 1 < 4 by decide) s
  have third (s : Words) : rounds majority 0x8F1BBCDC 40 (wordSequence block) s = _ :=
    rounds_eq whole (show 2 < 4 by decide) s
  have fourth (s : Words) : rounds parity 0xCA62C1D6 60 (wordSequence block) s = _ :=
    rounds_eq whole (show 3 < 4 by decide) s
  rw [digestBlock, compress, parts, List.foldl_append, List.foldl_append, List.foldl_append]
  simp only [and_ones, first, second, third, fourth]

end SHA1

end Cube.Eco
