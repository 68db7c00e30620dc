import Cube.Lib.Outcome
import Mathlib.Data.List.TakeWhile

/-! # The coder for zero bytes

Bytes from `0xe1` to `0xef` stand for 1 to 15 zero bytes, and `0xe0` says that the special byte
behind it is meant. The first 8 bytes are left as they are. The loops go over the bytes that are
still to be coded.
-/

namespace Cube.Eco.NullByteCoder

/-- `cmp_pos`. -/
def cmpPos : Nat := 8

/-- `max_cmp_null_num`. -/
def maxCmpNullNum : Nat := 0xef - 0xe0

/-- The bytes for a number of zero bytes. -/
def pushNulls (nullCount : Nat) : List UInt8 :=
  if maxCmpNullNum ≤ nullCount then 0xef :: pushNulls (nullCount - maxCmpNullNum)
  else if 0 < nullCount then [0xe0 + UInt8.ofNat nullCount]
  else []
termination_by nullCount
decreasing_by
  rw [maxCmpNullNum] at *
  omega

/-- The loop of `Encode`. -/
def encodeFrom : List UInt8 → List UInt8
  | [] => []
  | riChar :: rest =>
      if riChar = 0x00 then
        let nullCount := ((riChar :: rest).takeWhile (· == 0x00)).length
        pushNulls nullCount ++ encodeFrom (rest.drop (nullCount - 1))
      else if 0xe0 ≤ riChar ∧ riChar ≤ 0xef then 0xe0 :: riChar :: encodeFrom rest
      else riChar :: encodeFrom rest
termination_by rawData => rawData.length
decreasing_by all_goals simp only [List.length_cons, List.length_drop]; omega

/-- `Encode`, with the bytes of a text. -/
def encode (rawData : List UInt8) : Outcome Empty (List UInt8) :=
  if cmpPos ≤ rawData.length then .ok (rawData.take cmpPos ++ encodeFrom (rawData.drop cmpPos))
  else .fault

/-- The loop of `Decode`. It stops at its assertion. -/
def decodeFrom (rawData : List UInt8) : List UInt8 → Outcome Empty (List UInt8)
  | [] => .ok rawData
  | ciChar :: rest =>
      if ciChar < 0xe0 ∨ ciChar > 0xef then decodeFrom (rawData ++ [ciChar]) rest
      else if ciChar > 0xe0 ∧ ciChar ≤ 0xef then
        decodeFrom (rawData ++ List.replicate (ciChar - 0xe0).toNat 0) rest
      else
        match rest with
        | next :: rest =>
            if next ≥ 0xe0 ∧ next ≤ 0xef then decodeFrom (rawData ++ [next]) rest else .fault
        | [] => .fault

/-- `Decode`. -/
def decode (cmpData : List UInt8) : Outcome Empty (List UInt8) :=
  decodeFrom (if 8 ≤ cmpData.length then cmpData.take 8 else []) (cmpData.drop 8)

/-! ## Zero bytes -/

/-- A byte that stands for zero bytes. -/
theorem decodeFrom_nulls {count : Nat} (some : 0 < count) (few : count ≤ maxCmpNullNum)
    (rawData rest : List UInt8) :
    decodeFrom rawData ((0xe0 + UInt8.ofNat count) :: rest) =
      decodeFrom (rawData ++ List.replicate count 0) rest := by
  rw [maxCmpNullNum] at few
  have value : (0xe0 + UInt8.ofNat count).toNat = 0xe0 + count := by
    rw [UInt8.toNat_add, UInt8.toNat_ofNat', Nat.mod_eq_of_lt (by omega : count < 2 ^ 8)]
    exact Nat.mod_eq_of_lt (show 0xe0 + count < 256 by omega)
  have special : ¬ (0xe0 + UInt8.ofNat count < 0xe0 ∨ 0xe0 + UInt8.ofNat count > 0xef) := by
    simp only [UInt8.lt_iff_toNat_lt, gt_iff_lt, value, UInt8.reduceToNat]
    omega
  have nulls : 0xe0 + UInt8.ofNat count > 0xe0 ∧ 0xe0 + UInt8.ofNat count ≤ 0xef := by
    simp only [UInt8.lt_iff_toNat_lt, UInt8.le_iff_toNat_le, gt_iff_lt, value, UInt8.reduceToNat]
    omega
  have number : (0xe0 + UInt8.ofNat count - 0xe0).toNat = count := by
    rw [UInt8.toNat_sub, value]
    simp only [UInt8.reduceToNat]
    omega
  rw [decodeFrom.eq_def]
  simp only [if_neg special, if_pos nulls, number]

theorem decodeFrom_pushNulls (count : Nat) (rawData rest : List UInt8) :
    decodeFrom rawData (pushNulls count ++ rest) =
      decodeFrom (rawData ++ List.replicate count 0) rest := by
  induction count using Nat.strongRecOn generalizing rawData with
  | ind count ih =>
      rw [pushNulls]
      by_cases many : maxCmpNullNum ≤ count
      · have fewer : count - maxCmpNullNum < count :=
          Nat.sub_lt (Nat.lt_of_lt_of_le (by decide) many) (by decide)
        rw [if_pos many, List.cons_append]
        have group := decodeFrom_nulls (by decide) (Nat.le_refl maxCmpNullNum) rawData
          (pushNulls (count - maxCmpNullNum) ++ rest)
        have last : (0xe0 + UInt8.ofNat maxCmpNullNum) = 0xef := rfl
        rw [last] at group
        rw [group, ih _ fewer, List.append_assoc, List.replicate_append_replicate,
          Nat.add_sub_of_le many]
      · rw [if_neg many]
        by_cases some : 0 < count
        · rw [if_pos some]
          exact decodeFrom_nulls some (Nat.le_of_not_le many) rawData rest
        · rw [if_neg some, Nat.eq_zero_of_not_pos some, List.replicate_zero, List.append_nil]
          rfl

theorem pushNulls_ne_zero (count : Nat) : 0 ∉ pushNulls count := by
  induction count using Nat.strongRecOn with
  | ind count ih =>
      rw [pushNulls]
      by_cases many : maxCmpNullNum ≤ count
      · have fewer : count - maxCmpNullNum < count :=
          Nat.sub_lt (Nat.lt_of_lt_of_le (by decide) many) (by decide)
        rw [if_pos many, List.mem_cons]
        rintro (zero | later)
        · cases zero
        · exact ih _ fewer later
      · rw [if_neg many]
        by_cases some : 0 < count
        · rw [if_pos some, List.mem_singleton]
          intro zero
          have value := congrArg UInt8.toNat zero
          rw [maxCmpNullNum] at many
          rw [UInt8.toNat_add, UInt8.toNat_ofNat'] at value
          simp only [UInt8.reduceToNat] at value
          omega
        · rw [if_neg some]
          exact List.not_mem_nil

/-! ## Round trip -/

/-- The zero bytes at the start of a text, and what follows them. -/
theorem nulls_append (rest : List UInt8) :
    let nullCount := ((0x00 :: rest).takeWhile (· == (0x00 : UInt8))).length
    List.replicate nullCount 0x00 ++ rest.drop (nullCount - 1) = 0x00 :: rest := by
  have first : (0x00 :: rest).takeWhile (· == (0x00 : UInt8)) =
      0x00 :: rest.takeWhile (· == 0x00) := List.takeWhile_cons_of_pos rfl
  have zeros : rest.takeWhile (· == 0x00) =
      List.replicate (rest.takeWhile (· == 0x00)).length 0x00 :=
    List.eq_replicate_of_mem fun c member => by
      simpa only [beq_iff_eq] using List.mem_takeWhile_imp member
  simp only [first, List.length_cons, Nat.add_sub_cancel, List.replicate_succ, List.cons_append,
    ← zeros]
  rw [List.prefix_iff_eq_append.mp (List.takeWhile_prefix _)]

/-- What is decoded follows what was decoded before. -/
theorem decodeFrom_encodeFrom (rawData done : List UInt8) :
    decodeFrom done (encodeFrom rawData) = .ok (done ++ rawData) := by
  fun_induction encodeFrom rawData generalizing done with
  | case1 => rw [decodeFrom, List.append_nil]
  | case2 rest nullCount ih =>
      rw [decodeFrom_pushNulls, ih, List.append_assoc]
      exact congrArg (fun text => Outcome.ok (done ++ text)) (nulls_append rest)
  | case3 riChar rest nonzero special ih =>
      have escape : ¬ ((0xe0 : UInt8) < 0xe0 ∨ (0xe0 : UInt8) > 0xef) := by decide
      have single : ¬ ((0xe0 : UInt8) > 0xe0 ∧ (0xe0 : UInt8) ≤ 0xef) := by decide
      rw [decodeFrom.eq_def]
      simp only [if_neg escape, if_neg single, ge_iff_le, if_pos special]
      rw [ih, List.append_assoc]
      rfl
  | case4 riChar rest nonzero usual ih =>
      have other : riChar < 0xe0 ∨ riChar > 0xef := by
        by_contra neither
        rw [not_or] at neither
        exact usual ⟨UInt8.not_lt.mp neither.1, UInt8.not_lt.mp neither.2⟩
      rw [decodeFrom.eq_def]
      simp only [if_pos other]
      rw [ih, List.append_assoc]
      rfl

theorem encodeFrom_ne_zero (rawData : List UInt8) : 0 ∉ encodeFrom rawData := by
  fun_induction encodeFrom rawData with
  | case1 => exact List.not_mem_nil
  | case2 rest nullCount ih =>
      rw [List.mem_append, not_or]
      exact ⟨pushNulls_ne_zero nullCount, ih⟩
  | case3 riChar rest nonzero special ih =>
      simp only [List.mem_cons, not_or]
      exact ⟨by decide, Ne.symm nonzero, ih⟩
  | case4 riChar rest nonzero usual ih =>
      rw [List.mem_cons, not_or]
      exact ⟨Ne.symm nonzero, ih⟩

/-- **Zero bytes.** A text of 8 bytes or more is encoded without a zero byte behind the first 8,
and decoding gives it back. -/
theorem null_byte_round_trip {rawData : List UInt8} (long : 8 ≤ rawData.length) :
    ∃ cmpData, encode rawData = .ok cmpData ∧ decode cmpData = .ok rawData ∧
      0 ∉ cmpData.drop 8 := by
  have front : (rawData.take cmpPos).length = 8 := List.length_take_of_le long
  have head : (rawData.take cmpPos ++ encodeFrom (rawData.drop cmpPos)).take 8 =
      rawData.take cmpPos := List.take_left' front
  have tail : (rawData.take cmpPos ++ encodeFrom (rawData.drop cmpPos)).drop 8 =
      encodeFrom (rawData.drop cmpPos) := List.drop_left' front
  have held : 8 ≤ (rawData.take cmpPos ++ encodeFrom (rawData.drop cmpPos)).length := by
    rw [List.length_append, front]
    exact Nat.le_add_right ..
  refine ⟨rawData.take cmpPos ++ encodeFrom (rawData.drop cmpPos), if_pos long, ?_, ?_⟩
  · rw [decode, if_pos held, head, tail, decodeFrom_encodeFrom, List.take_append_drop]
  · rw [tail]
    exact encodeFrom_ne_zero _

/-- Special bytes and zero bytes next to each other. -/
theorem null_byte_round_trip_mixed : ∃ cmpData,
    encode [1, 2, 3, 4, 5, 6, 7, 8, 0, 0, 0xe0, 0, 0xef, 0xe1] = .ok cmpData ∧
      decode cmpData = .ok [1, 2, 3, 4, 5, 6, 7, 8, 0, 0, 0xe0, 0, 0xef, 0xe1] ∧
      0 ∉ cmpData.drop 8 :=
  null_byte_round_trip (by decide)

end Cube.Eco.NullByteCoder
