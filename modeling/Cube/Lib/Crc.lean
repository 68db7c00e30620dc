import Mathlib.Data.BitVec
import Mathlib.Logic.Function.Iterate

/-! # Cyclic redundancy checks

A reflected check, bit by bit: the register is shifted to the right, and the polynomial is added
where a bit falls out. A step is linear in the register, so that eight of them need one word of a
table, and what is wrong in a register can be followed by itself.
-/

namespace Crc

variable {w : Nat} (polynomial : BitVec w)

/-- One bit. -/
def bitStep (register : BitVec w) : BitVec w :=
  if register.getLsbD 0 then (register >>> 1) ^^^ polynomial else register >>> 1

/-- One byte. -/
def byteStep (register : BitVec w) (byte : BitVec 8) : BitVec w :=
  (bitStep polynomial)^[8] (register ^^^ byte.setWidth w)

/-- The check of some bytes, from a register on. -/
def check (register : BitVec w) (bytes : List (BitVec 8)) : BitVec w :=
  bytes.foldl (byteStep polynomial) register

variable {polynomial}

/-! ## Linearity -/

theorem xor_swap (a b c d : BitVec w) : (a ^^^ b) ^^^ (c ^^^ d) = (a ^^^ c) ^^^ (b ^^^ d) := by
  ac_rfl

theorem xor_eq_left_iff {a b : BitVec w} : a ^^^ b = a ↔ b = 0#w := by
  simpa only [BitVec.xor_zero] using BitVec.xor_right_inj (x := b) (y := 0#w) a

theorem bitStep_xor (first second : BitVec w) :
    bitStep polynomial (first ^^^ second) =
      bitStep polynomial first ^^^ bitStep polynomial second := by
  unfold bitStep
  rw [BitVec.getLsbD_xor, BitVec.ushiftRight_xor_distrib]
  cases first.getLsbD 0 with
  | false =>
      cases second.getLsbD 0 with
      | false => rfl
      | true => exact BitVec.xor_assoc ..
  | true =>
      cases second.getLsbD 0 with
      | false =>
          simp only [Bool.true_bne, Bool.not_false, if_true, Bool.false_eq_true, if_false]
          rw [BitVec.xor_assoc, BitVec.xor_comm (second >>> 1), BitVec.xor_assoc]
      | true =>
          simp only [Bool.xor_self, Bool.false_eq_true, if_false, if_true]
          rw [xor_swap, BitVec.xor_self, BitVec.xor_zero]

theorem iterate_bitStep_xor (count : Nat) (first second : BitVec w) :
    (bitStep polynomial)^[count] (first ^^^ second) =
      (bitStep polynomial)^[count] first ^^^ (bitStep polynomial)^[count] second := by
  induction count generalizing first second with
  | zero => rfl
  | succ count ih => rw [Function.iterate_succ_apply, bitStep_xor, ih]; rfl

/-- A step on two registers that are added, with the byte in the first one. -/
theorem byteStep_xor (first second : BitVec w) (byte : BitVec 8) :
    byteStep polynomial (first ^^^ second) byte =
      byteStep polynomial first byte ^^^ byteStep polynomial second 0#8 := by
  unfold byteStep
  rw [BitVec.setWidth_zero, BitVec.xor_zero, ← iterate_bitStep_xor, BitVec.xor_assoc,
    BitVec.xor_comm second, ← BitVec.xor_assoc]

/-! ## A table of bytes -/

/-- A register without bits at its end is only shifted. -/
theorem iterate_bitStep_of_clear {register : BitVec w} {count : Nat}
    (clear : ∀ i < count, register.getLsbD i = false) :
    (bitStep polynomial)^[count] register = register >>> count := by
  induction count with
  | zero => rw [BitVec.ushiftRight_zero]; rfl
  | succ count ih =>
      have last : (register >>> count).getLsbD 0 = false := by
        rw [BitVec.getLsbD_ushiftRight]
        exact clear count (Nat.lt_succ_self count)
      rw [Function.iterate_succ_apply', ih fun i low => clear i (Nat.lt_succ_of_lt low), bitStep,
        last, if_neg Bool.false_ne_true, BitVec.shiftRight_add]

/-- The byte at the end of a register. -/
def lowByte (register : BitVec w) : BitVec 8 := register.setWidth 8

/-- A register without the byte at its end. -/
def above (register : BitVec w) : BitVec w := register ^^^ (lowByte register).setWidth w

theorem getLsbD_above (register : BitVec w) (i : Nat) :
    (above register).getLsbD i = (register.getLsbD i && decide (8 ≤ i)) := by
  rw [above, BitVec.getLsbD_xor, lowByte, BitVec.getLsbD_setWidth, BitVec.getLsbD_setWidth]
  by_cases inside : i < w
  · by_cases low : i < 8
    · simp [inside, low, Nat.not_le.mpr low]
    · simp [inside, low, Nat.not_lt.mp low]
  · rw [BitVec.getLsbD_of_ge register i (Nat.not_lt.mp inside)]
    simp

theorem above_shift (register : BitVec w) : above register >>> 8 = register >>> 8 := by
  refine BitVec.eq_of_getLsbD_eq fun i _ => ?_
  rw [BitVec.getLsbD_ushiftRight, BitVec.getLsbD_ushiftRight, getLsbD_above]
  simp

/-- **A byte at a time.** The register is shifted by a byte, and the word of the table is added for
the byte that falls out together with the new one. -/
theorem byteStep_eq (register : BitVec w) (byte : BitVec 8) :
    byteStep polynomial register byte =
      (register >>> 8) ^^^ byteStep polynomial 0#w (lowByte register ^^^ byte) := by
  have split : register ^^^ byte.setWidth w =
      above register ^^^ (0#w ^^^ (lowByte register ^^^ byte).setWidth w) := by
    rw [BitVec.zero_xor, BitVec.setWidth_xor, above, BitVec.xor_assoc,
      ← BitVec.xor_assoc (BitVec.setWidth w (lowByte register)), BitVec.xor_self, BitVec.zero_xor]
  have clear : ∀ i < 8, (above register).getLsbD i = false := fun i low => by
    rw [getLsbD_above]
    simp [Nat.not_le.mpr low]
  rw [byteStep, split, iterate_bitStep_xor, iterate_bitStep_of_clear clear, above_shift]
  rfl

/-! ## Steps that go wrong -/

section Flaw

variable (polynomial) (flaw : BitVec w → BitVec w)

/-- A step that adds a flaw, which depends on the register. -/
def flawedStep (register : BitVec w) (byte : BitVec 8) : BitVec w :=
  byteStep polynomial register byte ^^^ flaw register

/-- What is wrong in the register after some bytes, where `wrong` was wrong before. -/
def drift : (register wrong : BitVec w) → List (BitVec 8) → BitVec w
  | _, wrong, [] => wrong
  | register, wrong, byte :: bytes =>
      drift (byteStep polynomial register byte)
        (byteStep polynomial wrong 0#8 ^^^ flaw (register ^^^ wrong)) bytes

/-- Flawed steps give the check and what is wrong in it. -/
theorem foldl_flawedStep (register wrong : BitVec w) (bytes : List (BitVec 8)) :
    bytes.foldl (flawedStep polynomial flaw) (register ^^^ wrong) =
      check polynomial register bytes ^^^ drift polynomial flaw register wrong bytes := by
  induction bytes generalizing register wrong with
  | nil => rfl
  | cons byte bytes ih =>
      rw [List.foldl_cons, flawedStep, byteStep_xor, BitVec.xor_assoc, ih]
      rfl

/-- Flawed steps give the check exactly if nothing is left of the flaws. -/
theorem foldl_flawedStep_eq_iff (register : BitVec w) (bytes : List (BitVec 8)) :
    bytes.foldl (flawedStep polynomial flaw) register = check polynomial register bytes ↔
      drift polynomial flaw register 0#w bytes = 0#w := by
  have both := foldl_flawedStep polynomial flaw register 0#w bytes
  rw [BitVec.xor_zero] at both
  rw [both]
  exact xor_eq_left_iff

/-- Flawed steps give the check of all the first bytes exactly if none of them meets a flaw. -/
theorem forall_foldl_flawedStep_iff (register : BitVec w) (bytes : List (BitVec 8)) :
    (∀ count, (bytes.take count).foldl (flawedStep polynomial flaw) register =
        check polynomial register (bytes.take count)) ↔
      ∀ count < bytes.length, flaw (check polynomial register (bytes.take count)) = 0#w := by
  induction bytes generalizing register with
  | nil => simp [check]
  | cons byte bytes ih =>
      have first : flawedStep polynomial flaw register byte = byteStep polynomial register byte ↔
          flaw register = 0#w := by
        rw [flawedStep]
        exact xor_eq_left_iff
      constructor
      · intro all
        have clean := first.mp (all 1)
        have next := (ih (byteStep polynomial register byte)).mp fun count => by
          have later := all (count + 1)
          rwa [List.take_succ_cons, List.foldl_cons, first.mpr clean] at later
        intro count inside
        cases count with
        | zero => exact clean
        | succ count => exact next count (Nat.lt_of_succ_lt_succ inside)
      · intro clean count
        cases count with
        | zero => rfl
        | succ count =>
            rw [List.take_succ_cons, List.foldl_cons, first.mpr (clean 0 (Nat.succ_pos _))]
            exact (ih _).mpr (fun later inside => clean (later + 1) (Nat.succ_lt_succ inside)) count

end Flaw

end Crc
