import Mathlib.Algebra.Group.Int.Defs
import Mathlib.Data.Nat.Digits.Lemmas
import Mathlib.Tactic.IntervalCases
import Cube.Lib.Buffer
import Cube.Eco.Config

/-! # Integers and text

`Integer` writes the digits of a number into its buffer of 64 characters, the last one first, then
the sign and the characters that fill up the width, and turns them around.
-/

namespace Cube.Eco

/-- The terminator of a text. -/
def nul : Char := Char.ofNat 0

theorem ne_nul_of_all {text : CString} (all : text.all (· ≠ nul) = true) : ∀ c ∈ text, c ≠ nul :=
  fun c member => of_decide_eq_true (List.all_eq_true.mp all c member)

/-- The types that an `Integer` is made for. -/
inductive IntType where
  | int8
  | uint8
  | int16
  | uint16
  | int32
  | uint32
  | int64
  | uint64
  deriving DecidableEq, Repr

namespace IntType

def min : IntType → Int
  | int8 => -2 ^ 7
  | int16 => -2 ^ 15
  | int32 => -2 ^ 31
  | int64 => -2 ^ 63
  | uint8 | uint16 | uint32 | uint64 => 0

def max : IntType → Int
  | int8 => 2 ^ 7 - 1
  | uint8 => 2 ^ 8 - 1
  | int16 => 2 ^ 15 - 1
  | uint16 => 2 ^ 16 - 1
  | int32 => 2 ^ 31 - 1
  | uint32 => 2 ^ 32 - 1
  | int64 => 2 ^ 63 - 1
  | uint64 => 2 ^ 64 - 1

/-- A value of an integer type. -/
structure Value (type : IntType) where
  val : Int
  fits : type.min ≤ val ∧ val ≤ type.max

end IntType

/-- `Scale`. -/
inductive Scale where
  | dec
  | hex
  deriving DecidableEq, Repr

/-- `s_digits`; `s_zero` points to its zero. -/
def sDigits : CString :=
  ['9', '8', '7', '6', '5', '4', '3', '2', '1', '0', '1', '2', '3', '4', '5', '6', '7', '8', '9']

/-- `s_digits_hex`. -/
def sDigitsHex : CString :=
  ['0', '1', '2', '3', '4', '5', '6', '7', '8', '9', 'A', 'B', 'C', 'D', 'E', 'F']

/-- A character of an array, at an index that may be negative. -/
def charAt (chars : CString) (index : Int) : Outcome Empty Char :=
  if 0 ≤ index then Buffer.read chars index.toNat else .fault

namespace Scale

def base : Scale → Nat
  | dec => 10
  | hex => 16

/-- `s_zero[lsd]` and `s_digits_hex[lsd]`. -/
def digit : Scale → Int → Outcome Empty Char
  | dec, lsd => charAt sDigits (9 + lsd)
  | hex, lsd => charAt sDigitsHex lsd

theorem two_le_base (s : Scale) : 2 ≤ s.base := by
  cases s <;> decide

end Scale

namespace Integer

/-- The loop that writes the digits at `p`. -/
def writeDigits (s : Scale) (x : Int) (buf : CString) (p : Nat) :
    Outcome Empty (CString × Nat) := do
  let c ← s.digit (x.tmod s.base)
  let buf ← Buffer.write buf p c
  if more : x.tdiv s.base ≠ 0 then writeDigits s (x.tdiv s.base) buf (p + 1) else .ok (buf, p + 1)
termination_by x.natAbs
decreasing_by
  have base := s.two_le_base
  rw [Int.natAbs_tdiv, Int.natAbs_natCast]
  refine Nat.div_lt_self ?_ base
  rw [Int.natAbs_pos]
  rintro rfl
  exact more (Int.zero_tdiv _)

/-- The sign. -/
def writeSign (v : Int) (buf : CString) (p : Nat) : Outcome Empty (CString × Nat) :=
  if v < 0 then do
    let buf ← Buffer.write buf p '-'
    .ok (buf, p + 1)
  else .ok (buf, p)

/-- The loop that writes the placeholders. -/
def writeHold (hold : Char) : Nat → CString → Nat → Outcome Empty (CString × Nat)
  | 0, buf, p => .ok (buf, p)
  | holdSize + 1, buf, p => do
      let buf ← Buffer.write buf p hold
      writeHold hold holdSize buf (p + 1)

/-- The placeholders, if a width is asked for. -/
def placeholder (width : UInt8) (hold : Char) (holdSize : Nat) (buf : CString) (p : Nat) :
    Outcome Empty (CString × Nat) :=
  if width > 0 then writeHold hold holdSize buf p else .ok (buf, p)

/-- The terminator, and `std::reverse` on what was written from `start` on. -/
def turnAround (buf : CString) (start p : Nat) : Outcome Empty (CString × Nat) := do
  let buf ← Buffer.write buf p nul
  .ok (buf.take start ++ ((buf.drop start).take (p - start)).reverse ++ buf.drop p, p - start)

/-- `convert_dec`, into a buffer from `start` on. -/
def convertDec (buf : CString) (start : Nat) (v : Int) (width : UInt8) (hold : Char) :
    Outcome Empty (CString × Nat) := do
  let (buf, p) ← writeDigits .dec v buf start
  let (buf, p) ← writeSign v buf p
  let holdSize : Int := (width.toNat : Int) - (UInt8.ofNat (p - start)).toNat
  let (buf, p) ← placeholder width hold holdSize.toNat buf p
  turnAround buf start p

/-- `convert_hex`. -/
def convertHex (buf : CString) (start : Nat) (v : Int) (width : UInt8) (hold : Char) :
    Outcome Empty (CString × Nat) := do
  let (buf, p) ← writeDigits .hex v buf start
  let holdSize : UInt8 := width - UInt8.ofNat (p - start)
  let (buf, p) ← placeholder width hold holdSize.toNat buf p
  turnAround buf start p

end Integer

/-- `m_buf` before anything is written. -/
structure RawBuffer where
  chars : CString
  size : chars.length = 64

/-- `Integer`, with `m_buf` and `m_size`. -/
structure Integer where
  buf : CString
  size : Nat
  deriving DecidableEq

namespace Integer

/-- `set_value`, on a buffer that holds anything. -/
def setValue (raw : RawBuffer) (v : Int) (s : Scale) (width : UInt8) (hold : Char) :
    Outcome Empty Integer :=
  match s with
  | .dec => do
      let (buf, size) ← convertDec raw.chars 0 v width hold
      .ok ⟨buf, size⟩
  | .hex => do
      let buf ← Buffer.write raw.chars 0 '0'
      let buf ← Buffer.write buf 1 'x'
      let (buf, size) ← convertHex buf 2 v width hold
      .ok ⟨buf, size + 2⟩

/-- The text at `c_str()`. -/
def cStr (integer : Integer) : CString := integer.buf.takeWhile (· ≠ nul)

end Integer

/-! ## Reading numbers -/

/-- The digit that a character is in a base. -/
def charDigit (base : Nat) (c : Char) : Option Nat :=
  let digit :=
    if '0' ≤ c ∧ c ≤ '9' then c.toNat - '0'.toNat
    else if 'a' ≤ c ∧ c ≤ 'z' then c.toNat - 'a'.toNat + 10
    else if 'A' ≤ c ∧ c ≤ 'Z' then c.toNat - 'A'.toNat + 10
    else base
  if digit < base then some digit else none

/-- The number that the digits at the start of a text show. -/
def readNumber (base : Nat) (number : Nat) : CString → Nat
  | [] => number
  | c :: text =>
      match charDigit base c with
      | some digit => readNumber base (number * base + digit) text
      | none => number

/-- A hexadecimal number may begin with `0x`. -/
def skipPrefix (base : Nat) (text : CString) : CString :=
  match text with
  | '0' :: c :: rest => if base = 16 ∧ (c = 'x' ∨ c = 'X') then rest else text
  | _ => text

/-- `strtoll(text, nullptr, base)`, or `strtoull`, for a number that fits. -/
def strtoll (text : CString) (base : Nat) : Int :=
  match text.dropWhile Char.isWhitespace with
  | '-' :: text => -(readNumber base 0 (skipPrefix base text) : Int)
  | '+' :: text => readNumber base 0 (skipPrefix base text)
  | text => readNumber base 0 (skipPrefix base text)

end Cube.Eco

/-! # Integers as text

A number that is not negative is written and read back in both scales, unless its hexadecimal text
is longer than a width that is asked for: the size of the placeholders is then wrapped. A negative
number is written in the decimal scale only, and filled up in front of its sign.
-/

namespace Cube.Eco

/-- The digits of a number, the last one first. -/
def Scale.digits (s : Scale) (n : Nat) : List Nat := if n = 0 then [0] else Nat.digits s.base n

/-- The character of a digit. -/
def Scale.char (s : Scale) (digit : Nat) : Char :=
  match s with
  | .dec => sDigits.getD (9 + digit) nul
  | .hex => sDigitsHex.getD digit nul

/-- The number of characters that a number takes without placeholders. -/
def Scale.naturalLength (s : Scale) (v : Int) : Nat :=
  (s.digits v.natAbs).length + if v < 0 then 1 else 0

/-- `0x` or nothing. -/
def Scale.lead : Scale → CString
  | .dec => []
  | .hex => ['0', 'x']

/-- What the conversion of a number is for: a terminated text of the right length that is read back
as the number. -/
structure Converts (s : Scale) (v : Int) (width : UInt8) (integer : Integer) : Prop where
  terminated : integer.buf[integer.size]? = some nul
  size : integer.size = integer.cStr.length
  length : integer.size = s.lead.length + max width.toNat (s.naturalLength v)
  value : strtoll integer.cStr s.base = v

/-! ## Digits -/

namespace Scale

variable (s : Scale)

theorem base_pos : 0 < s.base := Nat.lt_of_lt_of_le (by decide) s.two_le_base

theorem digits_eq (n : Nat) :
    s.digits n = (n % s.base) :: if n / s.base = 0 then [] else s.digits (n / s.base) := by
  by_cases zero : n = 0
  · subst zero
    rw [digits, if_pos rfl, Nat.zero_mod, Nat.zero_div, if_pos rfl]
  · rw [digits, if_neg zero, Nat.digits_def' s.two_le_base (Nat.pos_of_ne_zero zero)]
    by_cases last : n / s.base = 0
    · rw [if_pos last, last, Nat.digits_zero]
    · rw [if_neg last, digits, if_neg last]

theorem digits_lt {n d : Nat} (member : d ∈ s.digits n) : d < s.base := by
  rw [digits] at member
  split at member
  · rw [List.mem_singleton.mp member]
    exact s.base_pos
  · exact Nat.digits_lt_base s.two_le_base member

theorem length_digits_le {n count : Nat} (some : 0 < count) (small : n < s.base ^ count) :
    (s.digits n).length ≤ count := by
  rw [digits]
  split
  · exact some
  · exact (Nat.digits_length_le_iff s.two_le_base n).mpr small

theorem length_digits_pos (n : Nat) : 0 < (s.digits n).length := by
  rw [digits_eq]
  exact Nat.succ_pos _

theorem ofDigits_digits (n : Nat) : Nat.ofDigits s.base (s.digits n) = n := by
  rw [digits]
  split
  next zero => rw [zero, Nat.ofDigits_singleton]
  next => exact Nat.ofDigits_digits s.base n

theorem digit_natCast {d : Nat} (small : d < s.base) : s.digit d = .ok (s.char d) := by
  cases s with
  | dec =>
      rw [base] at small
      interval_cases d <;> rfl
  | hex =>
      rw [base] at small
      interval_cases d <;> rfl

/-- The decimal digits are also read from the other side of the zero. -/
theorem digit_neg {d : Nat} (small : d < 10) : Scale.dec.digit (-d) = .ok (Scale.dec.char d) := by
  interval_cases d <;> rfl

theorem charDigit_char {d : Nat} (small : d < s.base) : charDigit s.base (s.char d) = some d := by
  cases s with
  | dec =>
      rw [base] at small
      interval_cases d <;> rfl
  | hex =>
      rw [base] at small
      interval_cases d <;> rfl

/-- A digit is no blank, no sign and no terminator. -/
theorem char_plain {d : Nat} (small : d < s.base) :
    (s.char d).isWhitespace = false ∧ s.char d ≠ '-' ∧ s.char d ≠ '+' ∧ s.char d ≠ nul := by
  cases s with
  | dec =>
      rw [base] at small
      interval_cases d <;> decide
  | hex =>
      rw [base] at small
      interval_cases d <;> decide

end Scale

/-! ## Writing -/

namespace Integer

/-- What is read from the digits: either a remainder that is not negative, or the decimal ones. -/
theorem digit_tmod {s : Scale} {x : Int} (readable : 0 ≤ x ∨ s = .dec) :
    s.digit (x.tmod s.base) = .ok (s.char (x.natAbs % s.base)) := by
  have small : x.natAbs % s.base < s.base := Nat.mod_lt _ s.base_pos
  have size : (x.tmod s.base).natAbs = x.natAbs % s.base := Int.natAbs_tmod x s.base
  rcases le_or_gt 0 x with nonneg | negative
  · have value : x.tmod s.base = ((x.natAbs % s.base : Nat) : Int) := by
      have sign := Int.tmod_nonneg (s.base : Int) nonneg
      omega
    rw [value, s.digit_natCast small]
  · obtain rfl : s = .dec := readable.resolve_left (Int.not_le.mpr negative)
    have value : x.tmod Scale.dec.base = -((x.natAbs % Scale.dec.base : Nat) : Int) := by
      have sign : x.tmod Scale.dec.base ≤ 0 := by
        rw [← Int.neg_neg x, Int.neg_tmod]
        exact Int.neg_nonpos_of_nonneg (Int.tmod_nonneg _ (by omega))
      omega
    rw [value, Scale.digit_neg small]

theorem writeDigits_eq {s : Scale} {x : Int} (readable : 0 ≤ x ∨ s = .dec) (front : CString)
    {back : CString} (room : (s.digits x.natAbs).length ≤ back.length) :
    writeDigits s x (front ++ back) front.length =
      .ok (front ++ (s.digits x.natAbs).map s.char ++ back.drop (s.digits x.natAbs).length,
        front.length + (s.digits x.natAbs).length) := by
  induction size : x.natAbs using Nat.strongRecOn generalizing x front back with
  | ind n ih =>
      subst size
      have parts := s.digits_eq x.natAbs
      have quotient : (x.tdiv s.base).natAbs = x.natAbs / s.base := Int.natAbs_tdiv ..
      cases back with
      | nil => exact absurd room (Nat.not_le.mpr (s.length_digits_pos _))
      | cons old back =>
          rw [writeDigits, digit_tmod readable, Outcome.ok_bind,
            Buffer.write_append rfl, Outcome.ok_bind]
          have step : front ++ s.char (x.natAbs % s.base) :: back =
              (front ++ [s.char (x.natAbs % s.base)]) ++ back := by
            rw [List.append_assoc, List.singleton_append]
          by_cases more : x.tdiv s.base = 0
          · have last : x.natAbs / s.base = 0 := by
              rw [← quotient, more]
              rfl
            rw [dif_neg (not_not.mpr more), parts, if_pos last, step]
            rfl
          · have front_length : front.length + 1 =
                (front ++ [s.char (x.natAbs % s.base)]).length := by
              rw [List.length_append, List.length_singleton]
            have others : x.natAbs / s.base ≠ 0 := by
              rw [← quotient]
              exact Int.natAbs_ne_zero.mpr more
            have fewer : x.natAbs / s.base < x.natAbs :=
              Nat.div_lt_self (Nat.pos_of_ne_zero fun zero => others (by rw [zero, Nat.zero_div]))
                s.two_le_base
            have sign : 0 ≤ x.tdiv s.base ∨ s = .dec :=
              readable.imp_left fun nonneg => Int.tdiv_nonneg nonneg (Int.natCast_nonneg _)
            rw [parts, if_neg others] at room ⊢
            rw [dif_pos more, step, front_length, ih _ fewer sign _
              (by rw [quotient]; exact Nat.le_of_succ_le_succ room) quotient]
            simp only [List.map_cons, List.length_cons, List.drop_succ_cons, List.append_assoc,
              List.length_append, List.cons_append, List.nil_append, List.length_nil]
            rw [Nat.add_right_comm, Nat.add_assoc]

/-- A negative number has no hexadecimal digits: the digit that is not zero is read before the
array. -/
theorem writeDigits_negative {x : Int} (negative : x < 0) (buf : CString) (p : Nat) :
    writeDigits .hex x buf p = .fault := by
  induction size : x.natAbs using Nat.strongRecOn generalizing x buf p with
  | ind n ih =>
      subst size
      have sixteen : ((Scale.hex.base : Nat) : Int) = 16 := rfl
      have parts : (16 : Int) * x.tdiv 16 + x.tmod 16 = x := Int.mul_tdiv_add_tmod x 16
      have low : -16 < x.tmod 16 := Int.lt_tmod_of_pos x (by decide)
      have sign : x.tmod 16 ≤ 0 := by
        rw [← Int.neg_neg x, Int.neg_tmod]
        exact Int.neg_nonpos_of_nonneg (Int.tmod_nonneg _ (by omega))
      rw [writeDigits, sixteen]
      by_cases zero : x.tmod 16 = 0
      · have quotient : x.tdiv 16 < 0 := by omega
        rw [zero]
        change (Buffer.write buf p '0' >>= _) = _
        cases written : (Buffer.write buf p '0' : Outcome Empty CString) with
        | fault => rfl
        | reject error => exact error.elim
        | ok buf =>
            rw [Outcome.ok_bind, dif_pos (Int.ne_of_lt quotient)]
            exact ih _ (by omega) quotient buf (p + 1) rfl
      · have outside : Scale.hex.digit (x.tmod 16) = .fault :=
          if_neg (Int.not_le.mpr (lt_of_le_of_ne sign zero))
        rw [outside, Outcome.fault_bind]

theorem writeHold_eq (hold : Char) (count : Nat) (front back : CString) :
    writeHold hold count (front ++ back) front.length =
      if count ≤ back.length then
        .ok (front ++ List.replicate count hold ++ back.drop count, front.length + count)
      else .fault := by
  induction count generalizing front back with
  | zero =>
      rw [if_pos (Nat.zero_le _), List.replicate_zero, List.append_nil]
      rfl
  | succ count ih =>
      cases back with
      | nil =>
          have full : (Buffer.write (front ++ []) front.length hold : Outcome Empty CString) =
              .fault := if_neg (by rw [List.append_nil]; exact Nat.lt_irrefl _)
          rw [writeHold, full, List.length_nil, if_neg (Nat.not_succ_le_zero count)]
          rfl
      | cons old back =>
          have step : front ++ hold :: back = (front ++ [hold]) ++ back := by
            rw [List.append_assoc, List.singleton_append]
          have front_length : front.length + 1 = (front ++ [hold]).length := by
            rw [List.length_append, List.length_singleton]
          rw [writeHold, Buffer.write_append rfl, Outcome.ok_bind, step, front_length, ih,
            List.length_cons, List.drop_succ_cons]
          by_cases room : count ≤ back.length
          · rw [if_pos room, if_pos (Nat.succ_le_succ room)]
            simp only [List.append_assoc, List.cons_append, List.nil_append, List.replicate_succ,
              List.length_append, List.length_cons, List.length_nil]
            rw [Nat.add_assoc, Nat.add_comm 1]
          · rw [if_neg room, if_neg fun more => room (Nat.le_of_succ_le_succ more)]

theorem turnAround_eq (front written : CString) (old : Char) (back : CString) :
    turnAround (front ++ written ++ old :: back) front.length (front ++ written).length =
      .ok (front ++ written.reverse ++ nul :: back, written.length) := by
  have size : (front ++ written).length - front.length = written.length := by
    rw [List.length_append, Nat.add_sub_cancel_left]
  have first : (front ++ written ++ nul :: back).take front.length = front := by
    rw [List.append_assoc, List.take_left]
  have rest : (front ++ written ++ nul :: back).drop front.length = written ++ nul :: back := by
    rw [List.append_assoc, List.drop_left]
  rw [turnAround, Buffer.write_append rfl, Outcome.ok_bind, size, first, rest, List.take_left,
    List.drop_left]

/-- Placeholders are written behind what is there, and all of it is turned around. -/
theorem writeHold_turnAround (hold : Char) (count : Nat) (front written : CString)
    {back : CString} (room : count < back.length) :
    (writeHold hold count (front ++ written ++ back) (front ++ written).length >>= fun next =>
        turnAround next.1 front.length next.2) =
      .ok (front ++ (List.replicate count hold ++ written.reverse) ++ nul :: back.drop (count + 1),
        written.length + count) := by
  have behind : back.drop count = back[count] :: back.drop (count + 1) :=
    List.drop_eq_getElem_cons room
  have size : (front ++ written).length + count =
      (front ++ (written ++ List.replicate count hold)).length := by
    simp only [List.length_append, List.length_replicate, Nat.add_assoc]
  rw [writeHold_eq, if_pos (Nat.le_of_lt room), Outcome.ok_bind, size, behind,
    List.append_assoc front written, turnAround_eq, List.reverse_append, List.reverse_replicate,
    List.length_append, List.length_replicate]

theorem writeHold_full {hold : Char} {count : Nat} (front : CString) {back : CString}
    (full : back.length < count) :
    writeHold hold count (front ++ back) front.length = .fault := by
  rw [writeHold_eq, if_neg (Nat.not_le.mpr full)]

/-- No placeholders are written if no width is asked for. -/
theorem placeholder_eq (width : UInt8) (hold : Char) (holdSize : Nat) (buf : CString) (p : Nat) :
    placeholder width hold holdSize buf p =
      writeHold hold (if width.toNat = 0 then 0 else holdSize) buf p := by
  rw [placeholder]
  by_cases none : width.toNat = 0
  · have zero : ¬ width > 0 := by
      rw [gt_iff_lt, UInt8.lt_iff_toNat_lt, none]
      exact Nat.lt_irrefl 0
    rw [if_neg zero, if_pos none]
    rfl
  · have asked : width > 0 := by
      rw [gt_iff_lt, UInt8.lt_iff_toNat_lt]
      exact Nat.pos_of_ne_zero none
    rw [if_pos asked, if_neg none]

/-- The sign of a number. -/
def sign (v : Int) : CString := if v < 0 then ['-'] else []

/-- The characters of a number, the last one first. -/
def backward (s : Scale) (v : Int) : CString := (s.digits v.natAbs).map s.char ++ sign v

theorem length_backward (s : Scale) (v : Int) : (backward s v).length = s.naturalLength v := by
  rw [backward, List.length_append, List.length_map, Scale.naturalLength, sign]
  split <;> rfl

theorem writeSign_eq (v : Int) (front : CString) {back : CString}
    (room : (sign v).length ≤ back.length) :
    writeSign v (front ++ back) front.length =
      .ok (front ++ sign v ++ back.drop (sign v).length, (front ++ sign v).length) := by
  rw [sign] at room ⊢
  rw [writeSign]
  by_cases negative : v < 0
  · rw [if_pos negative] at room ⊢
    cases back with
    | nil => exact absurd room (by decide)
    | cons old back =>
        rw [if_pos negative, Buffer.write_append rfl, Outcome.ok_bind, List.append_assoc,
          List.length_append]
        rfl
  · rw [if_neg negative, if_neg negative, List.append_nil]
    rfl

/-- The digits and the sign. -/
theorem writeBackward_eq {s : Scale} {v : Int} (readable : 0 ≤ v ∨ s = .dec) (front : CString)
    {back : CString} (room : s.naturalLength v ≤ back.length) :
    (writeDigits s v (front ++ back) front.length >>= fun next =>
        writeSign v next.1 next.2) =
      .ok (front ++ backward s v ++ back.drop (s.naturalLength v),
        (front ++ backward s v).length) := by
  have natural := length_backward s v
  rw [backward, List.length_append, List.length_map] at natural
  have size : front.length + (s.digits v.natAbs).length =
      (front ++ (s.digits v.natAbs).map s.char).length := by
    rw [List.length_append, List.length_map]
  rw [writeDigits_eq readable front (by omega), Outcome.ok_bind, size,
    writeSign_eq v _ (by rw [List.length_drop]; omega), List.drop_drop, natural, backward,
    List.append_assoc front]

/-- The placeholders behind the characters of a number. -/
theorem placeholder_turnAround {s : Scale} {v : Int} (hold : Char) (front : CString)
    {back : CString} {width : UInt8} {holdSize : Nat}
    (room : max width.toNat (s.naturalLength v) < back.length)
    (exact : (if width.toNat = 0 then 0 else holdSize) = width.toNat - s.naturalLength v) :
    (placeholder width hold holdSize
        (front ++ backward s v ++ back.drop (s.naturalLength v))
        (front ++ backward s v).length >>= fun next => turnAround next.1 front.length next.2) =
      .ok (front ++ (List.replicate (width.toNat - s.naturalLength v) hold ++
          (backward s v).reverse) ++ nul :: back.drop (max width.toNat (s.naturalLength v) + 1),
        max width.toNat (s.naturalLength v)) := by
  have total : s.naturalLength v + (width.toNat - s.naturalLength v) =
      max width.toNat (s.naturalLength v) := by omega
  rw [placeholder_eq, exact, writeHold_turnAround hold _ front _
    (by rw [List.length_drop]; omega), length_backward, total, List.drop_drop, ← Nat.add_assoc,
    total]

theorem convertDec_eq (hold : Char) (front : CString) {back : CString} {v : Int} {width : UInt8}
    (short : Scale.dec.naturalLength v < 256)
    (room : max width.toNat (Scale.dec.naturalLength v) < back.length) :
    convertDec (front ++ back) front.length v width hold =
      .ok (front ++ (List.replicate (width.toNat - Scale.dec.naturalLength v) hold ++
          (backward .dec v).reverse) ++
            nul :: back.drop (max width.toNat (Scale.dec.naturalLength v) + 1),
        max width.toNat (Scale.dec.naturalLength v)) := by
  have fits : Scale.dec.naturalLength v ≤ back.length := by omega
  have written := writeBackward_eq (.inr rfl) front fits
  obtain ⟨digits, wrote, signed⟩ := Outcome.bind_eq_ok.mp written
  simp only [convertDec, wrote, signed, Outcome.ok_bind]
  refine placeholder_turnAround hold front room ?_
  rw [List.length_append, Nat.add_sub_cancel_left, length_backward, UInt8.toNat_ofNat',
    Nat.mod_eq_of_lt short]
  split <;> omega

/-- The size of the placeholders, which is wrapped if the width is too small. -/
theorem hexHold_toNat {v : Int} (width : UInt8) (short : Scale.hex.naturalLength v < 256)
    (front : CString) :
    (width - UInt8.ofNat ((front ++ backward .hex v).length - front.length)).toNat =
      (256 - Scale.hex.naturalLength v + width.toNat) % 256 := by
  rw [List.length_append, Nat.add_sub_cancel_left, length_backward, UInt8.toNat_sub,
    UInt8.toNat_ofNat', Nat.mod_eq_of_lt short]

theorem hexWritten {v : Int} (nonneg : 0 ≤ v) (front : CString) {back : CString}
    (room : Scale.hex.naturalLength v ≤ back.length) :
    writeDigits .hex v (front ++ back) front.length =
      .ok (front ++ backward .hex v ++ back.drop (Scale.hex.naturalLength v),
        (front ++ backward .hex v).length) := by
  have unsigned : sign v = [] := if_neg (Int.not_lt.mpr nonneg)
  have length : (Scale.hex.digits v.natAbs).length = Scale.hex.naturalLength v := by
    rw [Scale.naturalLength, if_neg (Int.not_lt.mpr nonneg), Nat.add_zero]
  rw [writeDigits_eq (.inl nonneg) front (by omega), backward, unsigned, List.append_nil, length,
    List.length_append, List.length_map, length]

theorem convertHex_eq (hold : Char) (front : CString) {back : CString} {v : Int} {width : UInt8}
    (nonneg : 0 ≤ v) (short : Scale.hex.naturalLength v < 256)
    (room : max width.toNat (Scale.hex.naturalLength v) < back.length)
    (wide : width.toNat = 0 ∨ Scale.hex.naturalLength v ≤ width.toNat) :
    convertHex (front ++ back) front.length v width hold =
      .ok (front ++ (List.replicate (width.toNat - Scale.hex.naturalLength v) hold ++
          (backward .hex v).reverse) ++
            nul :: back.drop (max width.toNat (Scale.hex.naturalLength v) + 1),
        max width.toNat (Scale.hex.naturalLength v)) := by
  have small := width.toNat_lt
  have fits : Scale.hex.naturalLength v ≤ back.length := by omega
  simp only [convertHex, hexWritten nonneg front fits, Outcome.ok_bind]
  refine placeholder_turnAround hold front room ?_
  rw [hexHold_toNat width short]
  split <;> omega

/-- A number that is longer than the width is filled up behind its buffer. -/
theorem convertHex_full (hold : Char) (front : CString) {back : CString} {v : Int} {width : UInt8}
    (nonneg : 0 ≤ v) (narrow : 0 < width.toNat ∧ width.toNat < Scale.hex.naturalLength v)
    (room : Scale.hex.naturalLength v ≤ back.length)
    (full : back.length + width.toNat < 256) :
    convertHex (front ++ back) front.length v width hold = .fault := by
  have short : Scale.hex.naturalLength v < 256 := by omega
  simp only [convertHex, hexWritten nonneg front room, Outcome.ok_bind]
  rw [placeholder_eq, if_neg (Nat.ne_of_gt narrow.1), hexHold_toNat width short,
    writeHold_full _ (by rw [List.length_drop]; omega)]
  rfl

/-! ## Reading back -/

theorem readNumber_zeros {base : Nat} (some : 2 ≤ base) (count : Nat) (text : CString) :
    readNumber base 0 (List.replicate count '0' ++ text) = readNumber base 0 text := by
  induction count with
  | zero => rfl
  | succ count ih =>
      have zero : charDigit base '0' = Option.some 0 := by
        change (if 0 < base then Option.some 0 else none) = _
        exact if_pos (Nat.lt_of_lt_of_le (by decide) some)
      rw [List.replicate_succ, List.cons_append, readNumber, zero, ← ih]
      exact congrArg (fun number => readNumber base number _) (Nat.zero_mul base)

theorem readNumber_chars (s : Scale) {digits : List Nat} (small : ∀ d ∈ digits, d < s.base)
    (number : Nat) : readNumber s.base number (digits.map s.char) =
      digits.foldl (fun number digit => number * s.base + digit) number := by
  induction digits generalizing number with
  | nil => rfl
  | cons d digits ih =>
      rw [List.map_cons, readNumber, s.charDigit_char (small d List.mem_cons_self)]
      exact ih (fun later member => small later (List.mem_cons_of_mem d member)) _

/-- The digits of a number are read as the number. -/
theorem readNumber_digits (s : Scale) (n count : Nat) :
    readNumber s.base 0 (List.replicate count '0' ++ ((s.digits n).map s.char).reverse) = n := by
  rw [readNumber_zeros s.two_le_base, ← List.map_reverse,
    readNumber_chars s fun d member => s.digits_lt (List.mem_reverse.mp member), List.foldl_reverse]
  conv_rhs => rw [← s.ofDigits_digits n, Nat.ofDigits_eq_foldr]
  simp only [Nat.mul_comm, Nat.add_comm, Nat.cast_id]

theorem skipPrefix_dec (text : CString) : skipPrefix Scale.dec.base text = text := by
  unfold skipPrefix
  split
  · exact if_neg fun hex => absurd hex.1 (by decide)
  · rfl

/-- Decimal text that begins with a digit. -/
theorem strtoll_unsigned {c : Char} {text : CString} (visible : c.isWhitespace = false)
    (minus : c ≠ '-') (plus : c ≠ '+') :
    strtoll (c :: text) Scale.dec.base = readNumber Scale.dec.base 0 (c :: text) := by
  rw [strtoll, List.dropWhile_cons_of_neg (by rw [visible]; decide)]
  split
  next starts => exact (minus (List.cons.inj starts).1).elim
  next starts => exact (plus (List.cons.inj starts).1).elim
  next => rw [skipPrefix_dec]

/-- Digits, and what is behind them, with zeros in front. -/
theorem strtoll_digits (n count : Nat) (rest : CString) :
    strtoll (List.replicate count '0' ++
        (((Scale.dec.digits n).map Scale.dec.char).reverse ++ rest)) Scale.dec.base =
      readNumber Scale.dec.base 0
        (List.replicate count '0' ++ (((Scale.dec.digits n).map Scale.dec.char).reverse ++ rest)) := by
  cases count with
  | succ count =>
      rw [List.replicate_succ, List.cons_append]
      exact strtoll_unsigned rfl (by decide) (by decide)
  | zero =>
      rw [List.replicate_zero, List.nil_append]
      cases first : ((Scale.dec.digits n).map Scale.dec.char).reverse with
      | nil =>
          have length := congrArg List.length first
          rw [List.length_reverse, List.length_map] at length
          exact absurd length (Nat.ne_of_gt (Scale.dec.length_digits_pos n))
      | cons c text =>
          have member : c ∈ ((Scale.dec.digits n).map Scale.dec.char).reverse :=
            first ▸ List.mem_cons_self
          obtain ⟨d, digit, rfl⟩ := List.mem_map.mp (List.mem_reverse.mp member)
          obtain ⟨visible, minus, plus, -⟩ := Scale.dec.char_plain (Scale.dec.digits_lt digit)
          exact strtoll_unsigned visible minus plus

theorem backward_reverse (s : Scale) (v : Int) :
    (backward s v).reverse = sign v ++ ((s.digits v.natAbs).map s.char).reverse := by
  have same : (sign v).reverse = sign v := by
    rw [sign]
    split <;> rfl
  rw [backward, List.reverse_append, same]

theorem strtoll_nonneg {v : Int} (nonneg : 0 ≤ v) (count : Nat) :
    strtoll (List.replicate count '0' ++ (backward .dec v).reverse) Scale.dec.base = v := by
  have unsigned : sign v = [] := if_neg (Int.not_lt.mpr nonneg)
  have read := strtoll_digits v.natAbs count []
  rw [List.append_nil] at read
  rw [backward_reverse, unsigned, List.nil_append, read, readNumber_digits]
  omega

theorem strtoll_negative {v : Int} (negative : v < 0) :
    strtoll (backward .dec v).reverse Scale.dec.base = v := by
  have signed : sign v = ['-'] := if_pos negative
  have read := readNumber_digits .dec v.natAbs 0
  rw [List.replicate_zero, List.nil_append] at read
  rw [backward_reverse, signed, List.singleton_append, strtoll,
    List.dropWhile_cons_of_neg (by decide)]
  simp only [skipPrefix_dec, read]
  omega

/-- A number that is filled up in front of its sign is read as zero. -/
theorem strtoll_filled {v : Int} (negative : v < 0) {count : Nat} (filled : 0 < count) :
    strtoll (List.replicate count '0' ++ (backward .dec v).reverse) Scale.dec.base = 0 := by
  have signed : sign v = ['-'] := if_pos negative
  obtain ⟨count, rfl⟩ := Nat.exists_eq_succ_of_ne_zero (Nat.ne_of_gt filled)
  rw [Nat.succ_eq_add_one, List.replicate_succ, List.cons_append,
    strtoll_unsigned rfl (by decide) (by decide), ← List.cons_append, ← List.replicate_succ,
    readNumber_zeros (by decide), backward_reverse, signed]
  rfl

theorem strtoll_hex {v : Int} (nonneg : 0 ≤ v) (count : Nat) :
    strtoll (Scale.hex.lead ++ (List.replicate count '0' ++ (backward .hex v).reverse))
      Scale.hex.base = v := by
  have unsigned : sign v = [] := if_neg (Int.not_lt.mpr nonneg)
  have read := readNumber_digits .hex v.natAbs count
  rw [backward_reverse, unsigned, List.nil_append]
  change ((readNumber 16 0 (List.replicate count '0' ++
    ((Scale.hex.digits v.natAbs).map Scale.hex.char).reverse) : Nat) : Int) = v
  rw [show readNumber 16 0 _ = _ from read]
  omega

/-! ## Conversion -/

theorem backward_plain (s : Scale) (v : Int) : ∀ c ∈ (backward s v).reverse, c ≠ nul := by
  intro c member
  rw [backward_reverse, List.mem_append] at member
  rcases member with signed | digit
  · rw [sign] at signed
    split at signed
    · rw [List.mem_singleton.mp signed]
      decide
    · cases signed
  · obtain ⟨d, small, rfl⟩ := List.mem_map.mp (List.mem_reverse.mp digit)
    exact (s.char_plain (s.digits_lt small)).2.2.2

/-- The text that stands in the buffer. -/
theorem cStr_of_text {text rest : CString} (plain : ∀ c ∈ text, c ≠ nul) (size : Nat) :
    (Integer.mk (text ++ nul :: rest) size).cStr = text := by
  have stop : (nul :: rest).takeWhile (· ≠ nul) = [] :=
    List.takeWhile_cons_of_neg (by simp)
  rw [cStr, List.takeWhile_append_of_pos fun c member => decide_eq_true (plain c member), stop,
    List.append_nil]

/-- The text of a number that is filled up with zeros. -/
def printed (s : Scale) (v : Int) (width : UInt8) : CString :=
  s.lead ++ (List.replicate (width.toNat - s.naturalLength v) '0' ++ (backward s v).reverse)

/-- The text in front of what the buffer held. -/
def converted (s : Scale) (v : Int) (width : UInt8) (rest : CString) : Integer :=
  ⟨printed s v width ++ nul :: rest, s.lead.length + max width.toNat (s.naturalLength v)⟩

theorem printed_plain (s : Scale) (v : Int) (width : UInt8) :
    ∀ c ∈ printed s v width, c ≠ nul := by
  intro c member
  rcases List.mem_append.mp member with lead | body
  · cases s with
    | dec => cases lead
    | hex =>
        rw [Scale.lead, List.mem_cons, List.mem_singleton] at lead
        rcases lead with rfl | rfl <;> decide
  · rcases List.mem_append.mp body with zero | natural
    · rw [List.eq_of_mem_replicate zero]
      decide
    · exact backward_plain s v c natural

theorem length_printed (s : Scale) (v : Int) (width : UInt8) :
    (printed s v width).length = s.lead.length + max width.toNat (s.naturalLength v) := by
  rw [printed, List.length_append, List.length_append, List.length_replicate,
    List.length_reverse, length_backward]
  omega

/-- What makes a text a conversion, apart from its form. -/
theorem converts_iff (s : Scale) (v : Int) (width : UInt8) (rest : CString) :
    Converts s v width (converted s v width rest) ↔ strtoll (printed s v width) s.base = v := by
  have text : (converted s v width rest).cStr = printed s v width :=
    cStr_of_text (printed_plain s v width) _
  constructor
  · intro converts
    have value := converts.value
    rwa [text] at value
  · intro value
    refine ⟨?_, ?_, rfl, ?_⟩
    · simp only [converted, ← length_printed, List.getElem?_append_right (Nat.le_refl _),
        Nat.sub_self, List.getElem?_cons_zero]
    · rw [text, length_printed]
      rfl
    · rw [text]
      exact value

end Integer

namespace IntType.Value

variable {type : IntType} (v : type.Value)

theorem natAbs_lt : v.val.natAbs < 2 ^ 64 ∧ (v.val < 0 → v.val.natAbs ≤ 2 ^ 63) := by
  obtain ⟨low, high⟩ := v.fits
  cases type <;> simp only [IntType.min, IntType.max] at low high <;> omega

/-- The texts of all types are short. -/
theorem naturalLength_le (s : Scale) : s.naturalLength v.val ≤ 20 := by
  obtain ⟨small, negative⟩ := v.natAbs_lt
  rw [Scale.naturalLength]
  by_cases sign : v.val < 0
  · have power : v.val.natAbs < s.base ^ 19 := by
      refine Nat.lt_of_le_of_lt (negative sign) (Nat.lt_of_lt_of_le (by decide : 2 ^ 63 < 10 ^ 19) ?_)
      exact Nat.pow_le_pow_left (by cases s <;> decide) 19
    have nineteen := s.length_digits_le (by decide) power
    rw [if_pos sign]
    exact Nat.succ_le_succ nineteen
  · rw [if_neg sign, Nat.add_zero]
    refine s.length_digits_le (by decide) ?_
    refine Nat.lt_of_lt_of_le small (Nat.le_trans (by decide : 2 ^ 64 ≤ 10 ^ 20) ?_)
    exact Nat.pow_le_pow_left (by cases s <;> decide) 20

end IntType.Value

/-- A number that is converted: in the decimal scale it is not negative or not filled up, in the
hexadecimal scale it is not negative and fits into the width, if there is one. -/
def Scale.Printable (s : Scale) (v : Int) (width : UInt8) : Prop :=
  match s with
  | .dec => 0 ≤ v ∨ width.toNat ≤ Scale.dec.naturalLength v
  | .hex => 0 ≤ v ∧ (width.toNat = 0 ∨ Scale.hex.naturalLength v ≤ width.toNat)

namespace Integer

variable {type : IntType} (v : type.Value) (raw : RawBuffer) {width : UInt8}

theorem setValue_dec (narrow : width.toNat ≤ 60) :
    ∃ rest, setValue raw v.val .dec width '0' = .ok (converted .dec v.val width rest) := by
  have short := v.naturalLength_le .dec
  have room : max width.toNat (Scale.dec.naturalLength v.val) < raw.chars.length := by
    rw [raw.size]
    omega
  have written := convertDec_eq '0' Scale.dec.lead (by omega) room
  have unshifted : Scale.dec.lead.length + max width.toNat (Scale.dec.naturalLength v.val) =
      max width.toNat (Scale.dec.naturalLength v.val) := Nat.zero_add _
  refine ⟨raw.chars.drop (max width.toNat (Scale.dec.naturalLength v.val) + 1), ?_⟩
  change (convertDec (Scale.dec.lead ++ raw.chars) Scale.dec.lead.length v.val width '0' >>= _) =
    _
  rw [written, converted, unshifted]
  rfl

/-- What the hexadecimal conversion does behind the `0x`. -/
theorem setValue_hex : ∃ back : CString, back.length = 62 ∧
    setValue raw v.val .hex width '0' =
      (convertHex (Scale.hex.lead ++ back) Scale.hex.lead.length v.val width '0' >>= fun next =>
        .ok ⟨next.1, next.2 + 2⟩) := by
  have size := raw.size
  match chars : raw.chars with
  | first :: second :: back =>
      rw [chars] at size
      refine ⟨back, Nat.succ.inj (Nat.succ.inj size), ?_⟩
      rw [setValue, chars]
      rfl
  | [] | [_] =>
      rw [chars] at size
      cases size

theorem dec_iff (narrow : width.toNat ≤ 60) :
    (∃ integer, setValue raw v.val .dec width '0' = .ok integer ∧
      Converts .dec v.val width integer) ↔ Scale.dec.Printable v.val width := by
  obtain ⟨rest, set⟩ := setValue_dec v raw narrow
  simp only [set, Outcome.ok.injEq, exists_eq_left', converts_iff]
  rw [printed, Scale.lead, List.nil_append, Scale.Printable]
  rcases le_or_gt 0 v.val with nonneg | negative
  · exact iff_of_true (strtoll_nonneg nonneg _) (.inl nonneg)
  · by_cases wide : width.toNat ≤ Scale.dec.naturalLength v.val
    · rw [Nat.sub_eq_zero_of_le wide, List.replicate_zero, List.nil_append]
      exact iff_of_true (strtoll_negative negative) (.inr wide)
    · rw [strtoll_filled negative (Nat.sub_pos_of_lt (Nat.lt_of_not_le wide))]
      refine iff_of_false (Int.ne_of_gt negative) ?_
      rintro (nonneg | short)
      · exact Int.not_le.mpr negative nonneg
      · exact wide short

theorem hex_iff (narrow : width.toNat ≤ 60) :
    (∃ integer, setValue raw v.val .hex width '0' = .ok integer ∧
      Converts .hex v.val width integer) ↔ Scale.hex.Printable v.val width := by
  have short := v.naturalLength_le .hex
  obtain ⟨back, size, set⟩ := @setValue_hex _ v raw width
  rw [set, Scale.Printable]
  by_cases nonneg : 0 ≤ v.val
  · by_cases wide : width.toNat = 0 ∨ Scale.hex.naturalLength v.val ≤ width.toNat
    · have room : max width.toNat (Scale.hex.naturalLength v.val) < back.length := by omega
      have written := convertHex_eq '0' Scale.hex.lead nonneg (by omega) room wide
      let rest := back.drop (max width.toNat (Scale.hex.naturalLength v.val) + 1)
      refine iff_of_true ⟨converted .hex v.val width rest, ?_, ?_⟩ ⟨nonneg, wide⟩
      · rw [written, converted, Nat.add_comm Scale.hex.lead.length]
        rfl
      · exact (converts_iff ..).mpr (strtoll_hex nonneg _)
    · rw [not_or] at wide
      have room : Scale.hex.naturalLength v.val ≤ back.length := by omega
      have small : back.length + width.toNat < 256 := by omega
      have full := convertHex_full '0' Scale.hex.lead nonneg ⟨by omega, by omega⟩ room small
      rw [full]
      refine iff_of_false ?_ fun printable => not_or.mpr wide printable.2
      rintro ⟨integer, ⟨⟩, -⟩
  · have faulted : convertHex (Scale.hex.lead ++ back) Scale.hex.lead.length v.val width '0' =
        .fault := by
      rw [convertHex, writeDigits_negative (Int.not_le.mp nonneg)]
      rfl
    rw [faulted]
    refine iff_of_false ?_ fun printable => nonneg printable.1
    rintro ⟨integer, ⟨⟩, -⟩

/-- **Text of integers.** A value of an integer type is converted to a text that is read back as
the value, in a buffer that holds it, if and only if the scale can print it. -/
theorem integer_text_iff (s : Scale) (narrow : width.toNat ≤ 60) :
    (∃ integer, setValue raw v.val s width '0' = .ok integer ∧
      Converts s v.val width integer) ↔ s.Printable v.val width := by
  cases s with
  | dec => exact dec_iff v raw narrow
  | hex => exact hex_iff v raw narrow

/-- A buffer of zeros. -/
def zeroBuffer : RawBuffer := ⟨List.replicate 64 '0', List.length_replicate⟩

/-- The smallest number of 64 bits. -/
def leastInt64 : IntType.int64.Value := ⟨-2 ^ 63, by decide⟩

theorem integer_text_least :
    (∃ integer, setValue zeroBuffer leastInt64.val .dec 8 '0' = .ok integer ∧
      Converts .dec leastInt64.val 8 integer) ↔ Scale.dec.Printable leastInt64.val 8 :=
  integer_text_iff leastInt64 zeroBuffer .dec (by decide)

/-- A negative number of 32 bits. -/
def minusFive : IntType.int32.Value := ⟨-5, by decide⟩

/-- The text is `00-5`. -/
theorem integer_text_filled : ¬ ∃ integer,
    setValue zeroBuffer minusFive.val .dec 4 '0' = .ok integer ∧
      Converts .dec minusFive.val 4 integer := by
  intro converts
  rcases (dec_iff minusFive zeroBuffer (by decide)).mp converts with nonneg | short
  · exact absurd nonneg (by decide)
  · have one := Scale.dec.length_digits_le (by decide) (by decide : 5 < Scale.dec.base ^ 1)
    have four : 4 ≤ (Scale.dec.digits 5).length + 1 := short
    omega

end Integer

end Cube.Eco
