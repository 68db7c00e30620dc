import Mathlib.Algebra.Group.Int.Defs
import Mathlib.Algebra.Order.Group.Nat
import Mathlib.Data.List.DropRight
import Mathlib.Tactic.Common
import Cube.Lib.Buffer

/-! # Base64 texts

The codec of `base64.cpp`: both overloads of `base64_encode` and `base64_decode`, the lengths they
predict, and the conversion between three bytes and four numbers of six bits. Lengths are `int`.
Below the translation stand the loops as functions of the text they read, and the length of what
they decode.
-/

namespace Cube.Base

/-- An allocation of a negative number of characters. -/
inductive AllocError where
  | badArrayNewLength
  deriving DecidableEq, Repr

/-- A result of `int` arithmetic. -/
def asInt (value : Int) : Outcome AllocError Int :=
  if -2 ^ 31 ≤ value ∧ value < 2 ^ 31 then .ok value else .fault

/-- `strlen`: the characters in front of the first NUL. -/
def strlen (input : List UInt8) : Outcome AllocError Nat :=
  if 0 ∈ input then .ok (input.takeWhile (· ≠ 0)).length else .fault

/-- `new char[size]`: characters without a value yet. -/
def newChars (size : Int) : Outcome AllocError (List (Option UInt8)) :=
  if size < 0 then .reject .badArrayNewLength else .ok (List.replicate size.toNat none)

/-- The length a function goes on with: `strlen` in place of a negative one, as an `int`. -/
def passedLength (input : List UInt8) (inputLength : Int) : Outcome AllocError Int :=
  if inputLength < 0 then do
    let length ← strlen input
    return (length : Int).bmod (2 ^ 32)
  else return inputLength

/-- The rounds of `while (length--)` over an input. A negative length is not counted down to zero
inside the input. -/
def rounds (input : List UInt8) (length : Int) : Nat :=
  if length < 0 then input.length + 1 else length.toNat

namespace Base64

def b64Alphabet : List UInt8 :=
  ("ABCDEFGHIJKLMNOPQRSTUVWXYZ".toList ++ "abcdefghijklmnopqrstuvwxyz".toList ++
    "0123456789+/".toList).map Char.toUInt8

/-- `a3_to_a4`. -/
def a3ToA4 (x y z : UInt8) : List UInt8 :=
  [(x &&& 0xfc) >>> 2, ((x &&& 0x03) <<< 4) + ((y &&& 0xf0) >>> 4),
    ((y &&& 0x0f) <<< 2) + ((z &&& 0xc0) >>> 6), z &&& 0x3f]

/-- `a4_to_a3`. -/
def a4ToA3 (p q r s : UInt8) : List UInt8 :=
  [(p <<< 2) + ((q &&& 0x30) >>> 4), ((q &&& 0xf) <<< 4) + ((r &&& 0x3c) >>> 2),
    ((r &&& 0x3) <<< 6) + s]

/-- `b64_lookup`. -/
def b64Lookup (c : UInt8) : UInt8 :=
  if 'A'.toUInt8 ≤ c ∧ c ≤ 'Z'.toUInt8 then c - 'A'.toUInt8
  else if 'a'.toUInt8 ≤ c ∧ c ≤ 'z'.toUInt8 then c - 71
  else if '0'.toUInt8 ≤ c ∧ c ≤ '9'.toUInt8 then c + 4
  else if c = '+'.toUInt8 then 62
  else if c = '/'.toUInt8 then 63
  else -1

/-- `b64_alphabet[number]`, for a number of six bits. -/
def letter (number : UInt8) : UInt8 := b64Alphabet.getD number.toNat 0

/-- The character `=`. -/
def eq : UInt8 := '='.toUInt8

/-! ## Encoding -/

/-- The end of `base64_encode`: the bytes that are left in `a3`. -/
def encodeRest (a3 : List UInt8) : List UInt8 :=
  match a3 with
  | [] => []
  | [x] => ((a3ToA4 x 0 0).take 2).map letter ++ [eq, eq]
  | x :: y :: _ => ((a3ToA4 x y 0).take 3).map letter ++ [eq]

/-- The loop of `base64_encode` over `count` bytes, with the bytes read since the last group. -/
def encodeLoop (a3 : List UInt8) : Nat → List UInt8 → Outcome AllocError (List UInt8)
  | 0, _ => .ok (encodeRest a3)
  | _ + 1, [] => .fault
  | count + 1, byte :: input =>
      match a3 ++ [byte] with
      | [x, y, z] => do
          let rest ← encodeLoop [] count input
          return (a3ToA4 x y z).map letter ++ rest
      | a3 => encodeLoop a3 count input

/-- `base64_encode` into an output buffer: the buffer after it, and the length it returns. -/
def base64EncodeInto (output : List (Option UInt8)) (input : List UInt8) (inputLength : Int) :
    Outcome AllocError (List (Option UInt8) × Int) := do
  let length ← passedLength input inputLength
  let encoded ← encodeLoop [] (rounds input length) input
  let output ← Buffer.patch output 0 ((encoded ++ [0]).map some)
  return (output, encoded.length)

/-- `base64_enc_len`. -/
def base64EncLen (n : Int) : Outcome AllocError Int := do
  let sum ← asInt (n + 2)
  asInt ((sum - sum.tmod 3).tdiv 3 * 4)

/-- The characters in front of the first NUL of a buffer, which must have values. -/
def cString : List (Option UInt8) → Outcome AllocError (List UInt8)
  | [] => .fault
  | none :: _ => .fault
  | some c :: buffer => if c = 0 then .ok [] else do return c :: (← cString buffer)

/-- `base64_encode`, which returns a string. -/
def base64Encode (input : List UInt8) (inputLength : Int) : Outcome AllocError (List UInt8) := do
  let length ← passedLength input inputLength
  let encLength ← base64EncLen length
  let encString ← newChars (encLength + 1)
  let (encString, _) ← base64EncodeInto encString input length
  cString encString

/-! ## Decoding -/

/-- The end of `base64_decode`: the characters that are left in `a4`, filled up with NULs. -/
def decodeRest (a4 : List UInt8) : List UInt8 :=
  match a4 with
  | [] => []
  | [_] => []
  | [p, q] => (a4ToA3 (b64Lookup p) (b64Lookup q) (b64Lookup 0) (b64Lookup 0)).take 1
  | p :: q :: r :: _ => (a4ToA3 (b64Lookup p) (b64Lookup q) (b64Lookup r) (b64Lookup 0)).take 2

/-- The loop of `base64_decode` over `count` characters, with those read since the last group. -/
def decodeLoop (a4 : List UInt8) : Nat → List UInt8 → Outcome AllocError (List UInt8)
  | 0, _ => .ok (decodeRest a4)
  | _ + 1, [] => .fault
  | count + 1, c :: input =>
      if c = eq then .ok (decodeRest a4)
      else
        match a4 ++ [c] with
        | [p, q, r, s] => do
            let rest ← decodeLoop [] count input
            return a4ToA3 (b64Lookup p) (b64Lookup q) (b64Lookup r) (b64Lookup s) ++ rest
        | a4 => decodeLoop a4 count input

/-- `base64_decode` into an output buffer: the buffer after it, and the length it returns. -/
def base64DecodeInto (output : List (Option UInt8)) (input : List UInt8) (inputLength : Int) :
    Outcome AllocError (List (Option UInt8) × Int) := do
  let length ← passedLength input inputLength
  let decoded ← decodeLoop [] (rounds input length) input
  let output ← Buffer.patch output 0 ((decoded ++ [0]).map some)
  return (output, decoded.length)

/-- The loop of `base64_dec_len` from position `length - 1` down. -/
def numEq (input : List UInt8) : (length : Nat) → Outcome AllocError Nat
  | 0 => .fault
  | i + 1 => do
      let c ← Buffer.read input i
      if c = eq then return (← numEq input i) + 1 else return 0

/-- `base64_dec_len`. -/
def base64DecLen (input : List UInt8) (inputLength : Int) : Outcome AllocError Int := do
  let numEq ← numEq input inputLength.toNat
  let bits ← asInt (6 * inputLength)
  return bits.tdiv 8 - numEq

/-- `base64_decode`, which returns a string: characters of its buffer, some perhaps without a
value. -/
def base64Decode (input : List UInt8) (inputLength : Int) :
    Outcome AllocError (List (Option UInt8)) := do
  let length ← passedLength input inputLength
  let decLength ← base64DecLen input length
  let decString ← newChars (decLength + 1)
  let (decString, _) ← base64DecodeInto decString input length
  return decString.take decLength.toNat

end Base64

theorem asInt_of_fits {value : Int} (low : -2 ^ 31 ≤ value) (high : value < 2 ^ 31) :
    asInt value = .ok value := if_pos ⟨low, high⟩

theorem of_asInt {value result : Int} (int : asInt value = .ok result) :
    result = value ∧ -2 ^ 31 ≤ value ∧ value < 2 ^ 31 := by
  unfold asInt at int
  split at int
  · next fits => exact ⟨(Outcome.ok.inj int).symm, fits⟩
  · cases int

/-- The characters in front of the NUL of a text. -/
theorem takeWhile_nul {text : List UInt8} (plain : 0 ∉ text) :
    (text ++ [0]).takeWhile (· ≠ 0) = text := by
  rw [List.takeWhile_append_of_pos fun c member => by
    simpa using fun nul : c = 0 => plain (nul ▸ member)]
  simp

/-- A call of one of the string overloads: the characters that can be read from the pointer on,
and a length that is inside them, or negative in front of a NUL. -/
structure Call where
  input : List UInt8
  length : Int
  isInt : -2 ^ 31 ≤ length ∧ length < 2 ^ 31
  readable : if length < 0 then 0 ∈ input else length ≤ input.length

namespace Call

/-- The length the call goes on with. -/
def count (call : Call) : Int :=
  if call.length < 0 then ((call.input.takeWhile (· ≠ 0)).length : Int).bmod (2 ^ 32)
  else call.length

/-- The characters the call is about. -/
def text (call : Call) : List UInt8 := call.input.take call.count.toNat

theorem passedLength_eq (call : Call) : passedLength call.input call.length = .ok call.count := by
  have readable := call.readable
  unfold passedLength count
  by_cases negative : call.length < 0
  · simp only [negative, ↓reduceIte] at readable ⊢
    simp only [strlen, readable, ↓reduceIte, Outcome.ok_bind, Outcome.pure_eq]
  · simp only [negative, ↓reduceIte, Outcome.pure_eq]

theorem count_toNat_le (call : Call) : call.count.toNat ≤ call.input.length := by
  have readable := call.readable
  unfold count
  by_cases negative : call.length < 0
  · simp only [negative, ↓reduceIte]
    have short := (List.takeWhile_prefix (fun c => decide (c ≠ 0)) (l := call.input)).length_le
    generalize (call.input.takeWhile (· ≠ 0)).length = length at short ⊢
    have wrapped := Int.bmod_def (length : Int) (2 ^ 32)
    split at wrapped <;> omega
  · simp only [negative, ↓reduceIte] at readable ⊢
    omega

@[simp] theorem length_text (call : Call) : call.text.length = call.count.toNat := by
  rw [text, List.length_take, Nat.min_eq_left call.count_toNat_le]

end Call

namespace Base64

/-! ## The loops on a text -/

/-- What `base64_decode` makes of the characters in front of the first `=`. -/
def decodeChars (a4 : List UInt8) : List UInt8 → List UInt8
  | [] => decodeRest a4
  | c :: text =>
      match a4 ++ [c] with
      | [p, q, r, s] =>
          a4ToA3 (b64Lookup p) (b64Lookup q) (b64Lookup r) (b64Lookup s) ++ decodeChars [] text
      | a4 => decodeChars a4 text

/-- What `base64_encode` makes of its bytes. -/
def encodeBytes (a3 : List UInt8) : List UInt8 → List UInt8
  | [] => encodeRest a3
  | byte :: bytes =>
      match a3 ++ [byte] with
      | [x, y, z] => (a3ToA4 x y z).map letter ++ encodeBytes [] bytes
      | a3 => encodeBytes a3 bytes

/-- The characters in front of the first `=`. -/
def front (text : List UInt8) : List UInt8 := text.takeWhile (· ≠ eq)

/-- The decoding loop stops at the first `=` or at the end of its characters. -/
theorem decodeLoop_eq (a4 : List UInt8) {count : Nat} {input : List UInt8}
    (inside : count ≤ input.length) :
    decodeLoop a4 count input = .ok (decodeChars a4 (front (input.take count))) := by
  induction count generalizing a4 input with
  | zero => simp [decodeLoop, front, decodeChars]
  | succ count ih =>
      cases input with
      | nil => simp at inside
      | cons c input =>
          have rest : count ≤ input.length := by simpa using inside
          by_cases stop : c = eq
          · simp [decodeLoop, front, stop, decodeChars]
          · have step : front ((c :: input).take (count + 1)) = c :: front (input.take count) := by
              simp [front, stop]
            rw [step, decodeLoop, if_neg stop, decodeChars]
            generalize a4 ++ [c] = group
            split
            · rw [ih [] rest]
              rfl
            · exact ih group rest

/-- The encoding loop reads all of its bytes. -/
theorem encodeLoop_eq (a3 : List UInt8) {count : Nat} {input : List UInt8}
    (inside : count ≤ input.length) :
    encodeLoop a3 count input = .ok (encodeBytes a3 (input.take count)) := by
  induction count generalizing a3 input with
  | zero => simp [encodeLoop, encodeBytes]
  | succ count ih =>
      cases input with
      | nil => simp at inside
      | cons byte input =>
          have rest : count ≤ input.length := by simpa using inside
          rw [List.take_succ_cons, encodeLoop, encodeBytes]
          generalize a3 ++ [byte] = group
          split
          · rw [ih [] rest]
            rfl
          · exact ih group rest

/-- Four characters give three bytes; what is left gives one byte less than it has characters. -/
theorem length_decodeChars (a4 text : List UInt8) (short : a4.length < 4) :
    (decodeChars a4 text).length = 3 * (a4.length + text.length) / 4 := by
  induction text generalizing a4 with
  | nil =>
      match a4, short with
      | [], _ => rfl
      | [_], _ => simp [decodeChars, decodeRest]
      | [_, _], _ => simp [decodeChars, decodeRest, a4ToA3]
      | [_, _, _], _ => simp [decodeChars, decodeRest, a4ToA3]
  | cons c text ih =>
      match a4, short with
      | [], _ =>
          have tail := ih [c] (by simp)
          simp only [decodeChars, List.nil_append, List.length_cons, List.length_nil] at tail ⊢
          omega
      | [p], _ =>
          have tail := ih [p, c] (by simp)
          simp only [decodeChars, List.cons_append, List.nil_append, List.length_cons,
            List.length_nil] at tail ⊢
          omega
      | [p, q], _ =>
          have tail := ih [p, q, c] (by simp)
          simp only [decodeChars, List.cons_append, List.nil_append, List.length_cons,
            List.length_nil] at tail ⊢
          omega
      | [p, q, r], _ =>
          have tail := ih [] (by simp)
          simp only [decodeChars, List.cons_append, List.nil_append, a4ToA3, List.length_cons,
            List.length_nil] at tail ⊢
          omega

/-! ## The predicted length -/

/-- The `=` at the end of a text. -/
def back (text : List UInt8) : List UInt8 := text.rtakeWhile (· = eq)

/-- The `=` in front of the first one and behind the last other character do not meet. -/
theorem length_front_add_back (text : List UInt8) :
    (front text).length + (back text).length ≤ text.length := by
  have parts : text.rdropWhile (· = eq) ++ back text = text := List.rdropWhile_append_rtakeWhile
  have stops : (back text).takeWhile (· ≠ eq) = [] := by
    apply List.takeWhile_eq_nil_iff.mpr
    intro nonempty
    have first := List.mem_rtakeWhile_imp (List.getElem_mem nonempty)
    simp only [decide_eq_true_eq] at first
    simp [first]
  have short : (front text).length ≤ (text.rdropWhile (· = eq)).length := by
    conv_lhs => rw [front, ← parts]
    rw [List.takeWhile_append, stops]
    split
    · simp
    · exact (List.takeWhile_prefix _).length_le
  calc (front text).length + (back text).length
      ≤ (text.rdropWhile (· = eq)).length + (back text).length := Nat.add_le_add_right short _
    _ = (text.rdropWhile (· = eq) ++ back text).length := List.length_append.symm
    _ = text.length := by rw [parts]

/-- The backward scan stays inside a text that has a character other than `=`, and leaves any
other. -/
theorem numEq_eq (input : List UInt8) {length : Nat} (inside : length ≤ input.length) :
    numEq input length = if ∃ c ∈ input.take length, c ≠ eq
      then .ok (back (input.take length)).length else .fault := by
  induction length with
  | zero => simp [numEq]
  | succ i ih =>
      obtain ⟨c, found, last⟩ :
          ∃ c, input[i]? = some c ∧ input.take (i + 1) = input.take i ++ [c] :=
        ⟨input[i], List.getElem?_eq_getElem inside, (List.take_append_getElem inside).symm⟩
      rw [numEq, Buffer.read_eq_ok.mpr found, Outcome.ok_bind, last, back, List.rtakeWhile_concat]
      by_cases stop : c = eq
      · subst stop
        rw [if_pos rfl, ih (by omega)]
        by_cases other : ∃ c ∈ input.take i, c ≠ eq
        · have longer : ∃ c ∈ input.take i ++ [eq], c ≠ eq := by
            obtain ⟨c, found, differs⟩ := other
            exact ⟨c, List.mem_append_left _ found, differs⟩
          simp only [other, longer, ↓reduceIte, decide_true, Outcome.ok_bind, Outcome.pure_eq,
            List.length_append, List.length_singleton]
          rfl
        · have none_longer : ¬ ∃ c ∈ input.take i ++ [eq], c ≠ eq := by
            rintro ⟨c, found, differs⟩
            rcases List.mem_append.mp found with before | here
            · exact other ⟨c, before, differs⟩
            · exact differs (List.mem_singleton.mp here)
          simp only [other, none_longer, ↓reduceIte, Outcome.fault_bind]
      · have longer : ∃ other ∈ input.take i ++ [c], other ≠ eq :=
          ⟨c, List.mem_append_right _ (List.mem_singleton.mpr rfl), stop⟩
        rw [if_neg stop, if_pos longer]
        simp [stop]

/-- The scan of a call's text. -/
theorem numEq_text (call : Call) : numEq call.input call.count.toNat =
    if ∃ c ∈ call.text, c ≠ eq then .ok (back call.text).length else .fault :=
  numEq_eq call.input call.count_toNat_le

end Base64

end Cube.Base
