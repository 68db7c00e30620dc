import Cube.Lib.Buffer
import Cube.Eco.Export

/-! # Strings, views and errors

`eco::String` (`Type.h`) owns a byte buffer whose size and capacity are 32-bit, and
allocates one byte more than its capacity for a terminator. A capacity of `2^32 - 1`
therefore wraps to an empty allocation, and a longer content wraps its size: both leave
the defined behaviour, and neither can be held.
-/

namespace Cube.Eco

/-- `eco::Error`: a code and the text streamed into it. -/
structure Error where
  id : Int
  message : String
  deriving DecidableEq, Repr

/-- The largest size an `eco::String` can have. -/
def maxStringSize : Nat := 2 ^ 32 - 2

/-- `eco::String`: a byte buffer of representable size. -/
structure EcoString where
  content : List UInt8
  fits : content.length ≤ maxStringSize
  deriving DecidableEq, Repr

namespace EcoString

variable {ε : Type}

@[ext] theorem ext {first second : EcoString} (same : first.content = second.content) :
    first = second := by
  cases first
  cases second
  cases same
  rfl

/-- A string with the given content, if it can be allocated. -/
def ofContent (content : List UInt8) : Outcome ε EcoString :=
  if fits : content.length ≤ maxStringSize then .ok ⟨content, fits⟩ else .fault

/-- The empty string, which `clear` leaves. -/
def empty : EcoString := ⟨[], Nat.zero_le _⟩

/-- `size()`. -/
def size (bytes : EcoString) : UInt32 := UInt32.ofNat bytes.content.length

/-- `reserve(c)`: allocates `c + 1` bytes, computed in 32 bits. -/
def reserve (bytes : EcoString) (c : UInt32) : Outcome ε EcoString :=
  if c + 1 = 0 then .fault else .ok bytes

/-- `resize(s)`: what it held is kept up to the new size. Bytes beyond it are not
initialised; they stand here as zeros. -/
def resize (bytes : EcoString) (s : UInt32) : Outcome ε EcoString := do
  let bytes ← bytes.reserve s
  ofContent (bytes.content.take s.toNat ++
    List.replicate (s.toNat - bytes.content.length) 0)

/-- `append(d, s)`. -/
def append (bytes : EcoString) (d : List UInt8) : Outcome ε EcoString :=
  ofContent (bytes.content ++ d)

/-- `operator[]`, read. -/
def get (bytes : EcoString) (pos : Nat) : Outcome ε UInt8 := Buffer.read bytes.content pos

/-- `operator[]`, assigned. -/
def assign (bytes : EcoString) (pos : Nat) (value : UInt8) : Outcome ε EcoString :=
  Buffer.write bytes.content pos value >>= ofContent

/-- A copy of several bytes to `&bytes[pos]`. -/
def copyTo (bytes : EcoString) (pos : Nat) (values : List UInt8) : Outcome ε EcoString :=
  Buffer.patch bytes.content pos values >>= ofContent

theorem ofContent_eq_ok {content : List UInt8} {bytes : EcoString} :
    (ofContent content : Outcome ε EcoString) = .ok bytes ↔ bytes.content = content := by
  unfold ofContent
  constructor
  · intro held
    split at held
    · cases held
      rfl
    · cases held
  · rintro rfl
    rw [dif_pos bytes.fits]

theorem ofContent_of_fits {content : List UInt8} (fits : content.length ≤ maxStringSize) :
    (ofContent content : Outcome ε EcoString) = .ok ⟨content, fits⟩ := dif_pos fits

theorem ofContent_of_not_fits {content : List UInt8} (large : ¬ content.length ≤ maxStringSize) :
    (ofContent content : Outcome ε EcoString) = .fault := dif_neg large

/-- The size of a string is its length, without wrapping. -/
@[simp] theorem size_toNat (bytes : EcoString) : bytes.size.toNat = bytes.content.length := by
  have fits := bytes.fits
  rw [size, UInt32.toNat_ofNat']
  exact Nat.mod_eq_of_lt (Nat.lt_of_le_of_lt fits (by decide))

/-- Appending twice is appending once, with one allocation check for both. -/
theorem append_append (bytes : EcoString) (first second : List UInt8) :
    (bytes.append first >>= fun grown => grown.append second : Outcome ε EcoString) =
      bytes.append (first ++ second) := by
  by_cases fits : (bytes.content ++ first).length ≤ maxStringSize
  · rw [append, ofContent_of_fits fits, Outcome.ok_bind, append, append, List.append_assoc]
  · have large : ¬ (bytes.content ++ (first ++ second)).length ≤ maxStringSize := by
      simp only [List.length_append] at fits ⊢
      omega
    rw [append, ofContent_of_not_fits fits, Outcome.fault_bind, append,
      ofContent_of_not_fits large]

@[simp] theorem append_nil (bytes : EcoString) :
    (bytes.append [] : Outcome ε EcoString) = .ok bytes :=
  ofContent_eq_ok.mpr (List.append_nil bytes.content).symm

/-- A capacity can be reserved when a string could fill it. -/
theorem reserve_eq_ok {bytes reserved : EcoString} {c : UInt32} :
    (bytes.reserve c : Outcome ε EcoString) = .ok reserved ↔
      c.toNat ≤ maxStringSize ∧ reserved = bytes := by
  have bound := c.toNat_lt
  have next := UInt32.toNat_add c 1
  have one : (1 : UInt32).toNat = 1 := rfl
  rw [reserve]
  split
  next full =>
    have wrapped : (c + 1).toNat = 0 := congrArg UInt32.toNat full
    have large : ¬ c.toNat ≤ maxStringSize := by
      rw [maxStringSize]
      omega
    simp only [reduceCtorEq, large, false_and]
  next room =>
    have nonzero : (c + 1).toNat ≠ 0 := fun zero => room (UInt32.toNat_inj.mp zero)
    have small : c.toNat ≤ maxStringSize := by
      rw [maxStringSize]
      omega
    simp only [Outcome.ok.injEq, small, true_and, eq_comm]

/-- A fresh string of a given size. -/
theorem resize_empty {s : UInt32} {data : EcoString} :
    (empty.resize s : Outcome ε EcoString) = .ok data ↔
      s.toNat ≤ maxStringSize ∧ data.content = List.replicate s.toNat 0 := by
  have content : empty.content.take s.toNat ++
      List.replicate (s.toNat - empty.content.length) 0 = List.replicate s.toNat 0 := by
    simp [empty]
  rw [resize, Outcome.bind_eq_ok]
  constructor
  · rintro ⟨reserved, room, held⟩
    obtain ⟨small, rfl⟩ := reserve_eq_ok.mp room
    exact ⟨small, (ofContent_eq_ok.mp held).trans content⟩
  · rintro ⟨small, held⟩
    exact ⟨empty, reserve_eq_ok.mpr ⟨small, rfl⟩, ofContent_eq_ok.mpr (held.trans content.symm)⟩

/-- A string is cut. -/
theorem resize_of_le {bytes cut : EcoString} {s : UInt32} (small : s.toNat ≤ bytes.content.length) :
    (bytes.resize s : Outcome ε EcoString) = .ok cut ↔
      cut.content = bytes.content.take s.toNat := by
  have nothing : s.toNat - bytes.content.length = 0 := Nat.sub_eq_zero_of_le small
  rw [resize, reserve_eq_ok.mpr ⟨Nat.le_trans small bytes.fits, rfl⟩, Outcome.ok_bind,
    ofContent_eq_ok, nothing, List.replicate_zero, List.append_nil]

/-- Copying inside a string leaves its size. -/
theorem copyTo_eq_ok {bytes copied : EcoString} {pos : Nat} {values : List UInt8} :
    (bytes.copyTo pos values : Outcome ε EcoString) = .ok copied ↔
      pos + values.length ≤ bytes.content.length ∧ copied.content =
        bytes.content.take pos ++ values ++ bytes.content.drop (pos + values.length) := by
  rw [copyTo, Outcome.bind_eq_ok]
  constructor
  · rintro ⟨patched, inside, held⟩
    obtain ⟨room, rfl⟩ := Buffer.patch_eq_ok.mp inside
    exact ⟨room, ofContent_eq_ok.mp held⟩
  · rintro ⟨room, content⟩
    exact ⟨_, Buffer.patch_eq_ok.mpr ⟨room, rfl⟩, ofContent_eq_ok.mpr content⟩

end EcoString

/-- `eco::Bytes`: a view of `size` bytes from offset `data` of a string. -/
structure Bytes where
  data : Nat
  size : UInt32
  deriving DecidableEq, Repr

/-- The bytes a view shows. -/
def Bytes.of (view : Bytes) (bytes : EcoString) : List UInt8 :=
  (bytes.content.drop view.data).take view.size.toNat

/-- The view of everything from a position on. -/
theorem Bytes.of_tail {bytes : EcoString} {pos : Nat} (inside : pos ≤ bytes.content.length) :
    (Bytes.mk pos (bytes.size - UInt32.ofNat pos)).of bytes = bytes.content.drop pos := by
  have fits := bytes.fits
  have size : (bytes.size - UInt32.ofNat pos).toNat = bytes.content.length - pos := by
    rw [UInt32.toNat_sub, EcoString.size_toNat, UInt32.toNat_ofNat']
    simp only [maxStringSize] at fits
    omega
  rw [Bytes.of, size, ← List.length_drop, List.take_length]

/-! ## Copying text -/

/-- `strncpy(dest, src, n)`: copies up to the first zero byte and fills with zeros. -/
def strncpy (src : List UInt8) (n : Nat) : List UInt8 :=
  let text := (src.take n).takeWhile (· != 0)
  text ++ List.replicate (n - text.length) 0

/-- After a zero byte come only zero bytes. -/
def ZerosLast (src : List UInt8) : Prop := src.Pairwise fun first later => first = 0 → later = 0

instance (src : List UInt8) : Decidable (ZerosLast src) :=
  inferInstanceAs (Decidable (src.Pairwise _))

@[simp] theorem length_strncpy (src : List UInt8) (n : Nat) : (strncpy src n).length = n := by
  have short : ((src.take n).takeWhile (· != 0)).length ≤ n :=
    Nat.le_trans (List.takeWhile_prefix _).length_le (List.length_take_le n src)
  rw [strncpy, List.length_append, List.length_replicate]
  exact Nat.add_sub_of_le short

theorem strncpy_cons_zero (src : List UInt8) (n : Nat) :
    strncpy (0 :: src) n = List.replicate n 0 := by
  cases n with
  | zero => rfl
  | succ n =>
      rw [strncpy, List.take_succ_cons, List.takeWhile_cons_of_neg (by decide), List.length_nil,
        Nat.sub_zero, List.nil_append]

theorem strncpy_cons_of_ne {value : UInt8} (nonzero : value ≠ 0) (src : List UInt8) (n : Nat) :
    strncpy (value :: src) (n + 1) = value :: strncpy src n := by
  have kept : (value :: src.take n).takeWhile (· != 0) =
      value :: (src.take n).takeWhile (· != 0) :=
    List.takeWhile_cons_of_pos (bne_iff_ne.mpr nonzero)
  rw [strncpy, List.take_succ_cons, kept, List.length_cons, Nat.add_sub_add_right]
  rfl

/-- **Text and binary.** `strncpy` copies all of its source exactly when the zero bytes of
the source come last. -/
theorem strncpy_length_iff (src : List UInt8) : strncpy src src.length = src ↔ ZerosLast src := by
  induction src with
  | nil => exact iff_of_true rfl .nil
  | cons value src ih =>
      rw [ZerosLast, List.pairwise_cons, List.length_cons]
      by_cases zero : value = 0
      · subst zero
        rw [strncpy_cons_zero, List.replicate_succ, List.cons.injEq]
        constructor
        · rintro ⟨_, filled⟩
          have zeros : ∀ later ∈ src, later = 0 := (List.eq_replicate_iff.mp filled.symm).2
          exact ⟨fun later member _ => zeros later member,
            List.pairwise_of_forall_mem_list fun _ _ later member _ => zeros later member⟩
        · rintro ⟨zeros, _⟩
          exact ⟨rfl, (List.eq_replicate_iff.mpr
            ⟨rfl, fun later member => zeros later member rfl⟩).symm⟩
      · rw [strncpy_cons_of_ne zero, List.cons.injEq, ih]
        exact ⟨fun ⟨_, last⟩ => ⟨fun _ _ here => (zero here).elim, last⟩,
          fun ⟨_, last⟩ => ⟨rfl, last⟩⟩

/-! ## Searching text -/

/-- `find_cmp(dest, v)`: the text at `dest` begins with `v`. A byte past the end is the
terminator. -/
def findCmp : List UInt8 → List UInt8 → Bool
  | _, [] => true
  | [], _ :: _ => false
  | d :: dest, c :: v => d != 0 && d == c && findCmp dest v

namespace EcoString

/-- The loop of `find_reverse`, from `back` bytes behind the last position down to it. -/
def findReverseFrom (data v : List UInt8) (findEnd : Nat) : Nat → Option Nat
  | 0 => if findCmp (data.drop findEnd) v then some findEnd else none
  | back + 1 =>
      if findCmp (data.drop (findEnd + (back + 1))) v then some (findEnd + (back + 1))
      else findReverseFrom data v findEnd back

/-- `find_reverse(v, find_end)`: the last occurrence of `v` that begins at `find_end` or
later. -/
def findReverse (data v : List UInt8) (findEnd : Nat) : Option Nat :=
  if data.length < findEnd + v.length then none
  else findReverseFrom data v findEnd (data.length - v.length - findEnd)

end EcoString

theorem findCmp_iff {v : List UInt8} (text : 0 ∉ v) (dest : List UInt8) :
    findCmp dest v = true ↔ v <+: dest := by
  induction v generalizing dest with
  | nil => simp [findCmp]
  | cons c v ih =>
      have nonzero : c ≠ 0 := fun zero => text (zero ▸ List.mem_cons_self)
      have rest : 0 ∉ v := fun member => text (List.mem_cons_of_mem c member)
      cases dest with
      | nil => simp [findCmp]
      | cons d dest =>
          simp only [findCmp, Bool.and_eq_true, bne_iff_ne, beq_iff_eq, ih rest,
            List.cons_prefix_cons]
          constructor
          · rintro ⟨⟨_, same⟩, begins⟩
            exact ⟨same.symm, begins⟩
          · rintro ⟨same, begins⟩
            exact ⟨⟨same ▸ nonzero, same.symm⟩, begins⟩

namespace EcoString

theorem findReverseFrom_isSome {v : List UInt8} (text : 0 ∉ v) (data : List UInt8)
    (findEnd back : Nat) : (findReverseFrom data v findEnd back).isSome = true ↔
      ∃ pos, pos ≤ back ∧ v <+: data.drop (findEnd + pos) := by
  induction back with
  | zero =>
      simp only [findReverseFrom]
      split
      next here =>
        exact iff_of_true rfl ⟨0, Nat.le_refl 0, (findCmp_iff text _).mp here⟩
      next absent =>
        apply iff_of_false Bool.false_ne_true
        rintro ⟨pos, zero, begins⟩
        rw [Nat.le_zero.mp zero] at begins
        exact absent ((findCmp_iff text _).mpr begins)
  | succ back ih =>
      simp only [findReverseFrom]
      split
      next here =>
        exact iff_of_true rfl ⟨back + 1, Nat.le_refl _, (findCmp_iff text _).mp here⟩
      next absent =>
        rw [ih]
        constructor
        · rintro ⟨pos, inside, begins⟩
          exact ⟨pos, Nat.le_succ_of_le inside, begins⟩
        · rintro ⟨pos, inside, begins⟩
          rcases Nat.le_succ_iff.mp inside with earlier | rfl
          · exact ⟨pos, earlier, begins⟩
          · exact (absent ((findCmp_iff text _).mpr begins)).elim

/-- **Searching from the back.** Text is found exactly when it occurs from the position on
that the search goes down to. -/
theorem findReverse_isSome {v : List UInt8} (text : 0 ∉ v) (nonempty : v ≠ [])
    (data : List UInt8) (findEnd : Nat) :
    (findReverse data v findEnd).isSome = true ↔ v <:+: data.drop findEnd := by
  have positive : 0 < v.length := List.length_pos_iff.mpr nonempty
  unfold findReverse
  split
  next short =>
    apply iff_of_false Bool.false_ne_true
    intro inside
    have fits := inside.length_le
    rw [List.length_drop] at fits
    omega
  next room =>
    rw [findReverseFrom_isSome text]
    constructor
    · rintro ⟨pos, _, begins⟩
      rw [← List.drop_drop] at begins
      exact begins.isInfix.trans (List.drop_suffix pos _).isInfix
    · rintro ⟨before, after, split⟩
      have lengths := congrArg List.length split
      simp only [List.length_append, List.length_drop] at lengths
      refine ⟨before.length, by omega, ⟨after, ?_⟩⟩
      rw [← List.drop_drop, ← split, List.append_assoc, List.drop_left]

end EcoString

end Cube.Eco
