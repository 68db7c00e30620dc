import Cube.Eco.Type

/-! # Searching and copying a text

A pointer into a text that is searched is the text from there on, without the terminator. A text is
copied to a place in memory, which is all of the bytes that can be written; a `size_t` has `width`
bits.
-/

namespace Cube.Eco

/-! ## Searching -/

/-- `strchr`: how far behind a pointer a byte comes first. -/
def strchr (data : List UInt8) (c : UInt8) : Option Nat := data.findIdx? (· == c)

/-- The loop of `find`, for a number of places to try. -/
def findFrom (v : List UInt8) : Nat → List UInt8 → Option (List UInt8)
  | 0, _ => none
  | places + 1, dest => if findCmp dest v then some dest else findFrom v places dest.tail

/-- `find(dest, size, v)`. The last place to try is `&dest[size - strlen(v)]`, which may be before
`dest`. -/
def find (dest : List UInt8) (size : Nat) (v : List UInt8) : Option (List UInt8) :=
  findFrom v (size + 1 - v.length) dest

theorem strchr_append {c : UInt8} {front : List UInt8} (absent : c ∉ front) (back : List UInt8) :
    strchr (front ++ back) c = (strchr back c).map (· + front.length) := by
  have missing : front.findIdx? (· == c) = none := by
    rw [List.findIdx?_eq_none_iff]
    intro b member
    exact beq_eq_false_iff_ne.mpr fun same => absent (same ▸ member)
  rw [strchr, List.findIdx?_append, missing, Option.none_or]
  rfl

theorem strchr_cons_self (c : UInt8) (back : List UInt8) : strchr (c :: back) c = some 0 := by
  rw [strchr, List.findIdx?_cons, beq_self_eq_true]
  rfl

theorem strchr_eq_none {c : UInt8} {data : List UInt8} : strchr data c = none ↔ c ∉ data := by
  rw [strchr, List.findIdx?_eq_none_iff]
  constructor
  · intro differ member
    exact absurd (differ c member) (by simp)
  · intro absent b member
    exact beq_eq_false_iff_ne.mpr fun same => absent (same ▸ member)

theorem strchr_eq_some {c : UInt8} {front : List UInt8} (absent : c ∉ front) (back : List UInt8) :
    strchr (front ++ c :: back) c = some front.length := by
  rw [strchr_append absent, strchr_cons_self, Option.map_some, Nat.zero_add]

theorem findFrom_isSome {v : List UInt8} (text : 0 ∉ v) (places : Nat) (dest : List UInt8) :
    (findFrom v places dest).isSome = true ↔ ∃ pos < places, v <+: dest.drop pos := by
  induction places generalizing dest with
  | zero => exact iff_of_false Bool.false_ne_true fun ⟨_, inside, _⟩ => Nat.not_lt_zero _ inside
  | succ places ih =>
      rw [findFrom]
      by_cases here : findCmp dest v = true
      · rw [if_pos here]
        exact iff_of_true rfl ⟨0, Nat.succ_pos places, (findCmp_iff text dest).mp here⟩
      · rw [if_neg here, ih]
        constructor
        · rintro ⟨pos, inside, begins⟩
          exact ⟨pos + 1, Nat.succ_lt_succ inside, List.drop_tail (l := dest) ▸ begins⟩
        · rintro ⟨pos, inside, begins⟩
          cases pos with
          | zero => exact (here ((findCmp_iff text dest).mpr begins)).elim
          | succ pos =>
              exact ⟨pos, Nat.lt_of_succ_lt_succ inside, List.drop_tail (l := dest) ▸ begins⟩

/-- **Searching a part.** The text is found exactly if it occurs in the first bytes. -/
theorem find_isSome {v : List UInt8} (text : 0 ∉ v) (part rest : List UInt8) :
    (find (part ++ rest) part.length v).isSome = true ↔ v <:+: part := by
  rw [find, findFrom_isSome text]
  constructor
  · rintro ⟨pos, inside, begins⟩
    have short : pos ≤ part.length := by omega
    rw [List.drop_append_of_le_length short] at begins
    have fits : v.length ≤ (part.drop pos).length := by
      rw [List.length_drop]
      omega
    have within := List.prefix_of_prefix_length_le begins (List.prefix_append _ _) fits
    exact within.isInfix.trans (List.drop_suffix pos part).isInfix
  · rintro ⟨before, after, rfl⟩
    refine ⟨before.length, ?_, ?_⟩
    · simp only [List.length_append]
      omega
    · rw [List.append_assoc, List.append_assoc, List.drop_left]
      exact List.prefix_append _ _

/-! ## Copying within a length -/

variable {width : Nat}

/-- `strlen`: the bytes in front of the first terminator. -/
def strlen (data : List UInt8) : Outcome Empty Nat :=
  if 0 ∈ data then .ok (data.takeWhile (· != 0)).length else .fault

/-- The loop of `auto_strncpy`, with what is left of the source and the place `temp` in memory. The
count goes up with each test, also with the one that ends the loop. -/
def copyLoop (len : BitVec width) :
    List UInt8 → BitVec width → Nat → List UInt8 → Outcome Empty (BitVec width × List UInt8)
  | [], cpyLen, _, memory => if cpyLen < len then .fault else return (cpyLen + 1, memory)
  | c :: src, cpyLen, temp, memory =>
      if cpyLen < len then do
        let memory ← Buffer.write memory temp c
        if c != 0 then copyLoop len src (cpyLen + 1) (temp + 1) memory
        else return (cpyLen + 1, memory)
      else return (cpyLen + 1, memory)

/-- `auto_strncpy`: what it returns, and the memory behind it. -/
def autoStrncpy (memory : List UInt8) (dest : Nat) (src : List UInt8) (len : BitVec width) :
    Outcome Empty (BitVec width × List UInt8) := do
  let (cpyLen, memory) ← copyLoop len src 0 dest memory
  let cpyLen := cpyLen - 1
  if cpyLen = len then
    -- the source has not ended within the length
    let cpyLen := cpyLen - 1
    let memory ← Buffer.write memory (dest + cpyLen.toNat) 0
    return (cpyLen, memory)
  else return (cpyLen, memory)

/-- `auto_strncat`. -/
def autoStrncat (memory : List UInt8) (dest : Nat) (src : List UInt8) (len : BitVec width) :
    Outcome Empty (BitVec width × List UInt8) := do
  let destEnd ← strlen (memory.drop dest)
  let destEnd := BitVec.ofNat width destEnd
  autoStrncpy memory (dest + destEnd.toNat) src (len - destEnd)

/-- The longest front of a text with at most so many characters. -/
structure LongestFront (room : Nat) (text kept : List UInt8) : Prop where
  front : kept <+: text
  fits : kept.length ≤ room
  longest : ∀ other, other <+: text → other.length ≤ room → other <+: kept

/-- The `n` bytes at a place hold as much of a text as fits, with its terminator, and the memory
around them is as it was. -/
def Keeps (n : Nat) (front after wanted kept memory : List UInt8) : Prop :=
  LongestFront (n - 1) wanted kept ∧
    ∃ left, (kept ++ 0 :: left).length = n ∧ memory = front ++ (kept ++ 0 :: left) ++ after

theorem longestFront_take (room : Nat) (text : List UInt8) :
    LongestFront room text (text.take room) where
  front := List.take_prefix room text
  fits := List.length_take_le room text
  longest _ begins fits := List.prefix_take_iff.mpr ⟨begins, fits⟩

theorem ofNat_lt {len : BitVec width} {k : Nat} (more : k < len.toNat) :
    BitVec.ofNat width k < len := by
  rw [BitVec.lt_def, BitVec.toNat_ofNat]
  exact Nat.lt_of_le_of_lt (Nat.mod_le k _) more

theorem toNat_ofNat_of_le {len : BitVec width} {k : Nat} (le : k ≤ len.toNat) :
    (BitVec.ofNat width k).toNat = k := by
  rw [BitVec.toNat_ofNat]
  exact Nat.mod_eq_of_lt (Nat.lt_of_le_of_lt le len.isLt)

theorem toNat_sub_ofNat {len : BitVec width} {k : Nat} (le : k ≤ len.toNat) :
    (len - BitVec.ofNat width k).toNat = len.toNat - k := by
  have small : BitVec.ofNat width k ≤ len := by
    rw [BitVec.le_def, toNat_ofNat_of_le le]
    exact le
  rw [BitVec.toNat_sub_of_le small, toNat_ofNat_of_le le]

/-- A turn of the loop that writes a character of the text. -/
theorem copyLoop_cons {len : BitVec width} {k : Nat} (more : k < len.toNat) {c : UInt8}
    (nonzero : c ≠ 0) (src front : List UInt8) (o : UInt8) (back : List UInt8) :
    copyLoop len (c :: src) (BitVec.ofNat width k) front.length (front ++ o :: back) =
      copyLoop len src (BitVec.ofNat width (k + 1)) (front ++ [c]).length
        ((front ++ [c]) ++ back) := by
  rw [copyLoop, if_pos (ofNat_lt more), Buffer.write_append rfl, Outcome.ok_bind,
    if_pos (bne_iff_ne.mpr nonzero), List.length_append, List.append_assoc, BitVec.ofNat_add]
  rfl

/-- A text for which there is room is copied with its terminator. -/
theorem copyLoop_fits {len : BitVec width} {k : Nat} {text old : List UInt8} (plain : 0 ∉ text)
    (enough : text.length < old.length) (room : k + old.length = len.toNat)
    (front after behind : List UInt8) :
    copyLoop len (text ++ 0 :: behind) (BitVec.ofNat width k) front.length
        (front ++ (old ++ after)) =
      .ok (BitVec.ofNat width (k + text.length) + 1,
        front ++ (text ++ 0 :: old.drop (text.length + 1) ++ after)) := by
  induction text generalizing k old front with
  | nil =>
      obtain ⟨o, old, rfl⟩ := List.exists_cons_of_length_pos enough
      rw [List.length_cons] at room
      rw [List.nil_append, List.cons_append, copyLoop, if_pos (ofNat_lt (by omega)),
        Buffer.write_append rfl]
      rfl
  | cons c text ih =>
      obtain ⟨o, old, rfl⟩ := List.exists_cons_of_length_pos (Nat.zero_lt_of_lt enough)
      rw [List.mem_cons, not_or] at plain
      obtain ⟨nonzero, plain'⟩ := plain
      simp only [List.length_cons] at enough room
      rw [List.cons_append, List.cons_append, copyLoop_cons (by omega) (Ne.symm nonzero),
        ih plain' (by omega) (by omega)]
      simp only [List.length_cons, List.drop_succ_cons, List.append_assoc, List.cons_append,
        List.nil_append, Nat.add_assoc, Nat.add_comm 1]

/-- A text that has not ended within the length is copied up to it. -/
theorem copyLoop_full {len : BitVec width} {k : Nat} {text old : List UInt8} (plain : 0 ∉ text)
    (short : old.length ≤ text.length) (room : k + old.length = len.toNat)
    (front after behind : List UInt8) :
    copyLoop len (text ++ 0 :: behind) (BitVec.ofNat width k) front.length
        (front ++ (old ++ after)) =
      .ok (len + 1, front ++ (text.take old.length ++ after)) := by
  induction old generalizing k text front with
  | nil =>
      have full : BitVec.ofNat width k = len := by
        rw [show k = len.toNat from room, BitVec.ofNat_toNat, BitVec.setWidth_eq]
      obtain ⟨c, src, split⟩ : ∃ c src, text ++ 0 :: behind = c :: src :=
        List.exists_cons_of_ne_nil (by simp)
      rw [split, full, copyLoop, if_neg (BitVec.lt_irrefl len)]
      rfl
  | cons o old ih =>
      obtain ⟨c, text, rfl⟩ := List.exists_cons_of_length_pos
        (Nat.lt_of_lt_of_le (Nat.succ_pos _) short)
      rw [List.mem_cons, not_or] at plain
      obtain ⟨nonzero, plain'⟩ := plain
      simp only [List.length_cons] at short room
      rw [List.cons_append, List.cons_append, copyLoop_cons (by omega) (Ne.symm nonzero),
        ih plain' (by omega) (by omega)]
      simp only [List.length_cons, List.take_succ_cons, List.append_assoc, List.cons_append,
        List.nil_append]

/-- The text has ended within the length. -/
theorem autoStrncpy_fits {n : BitVec width} {old text : List UInt8} (size : old.length = n.toNat)
    (fits : text.length < n.toNat) (plain : 0 ∉ text) (front after behind : List UInt8) :
    autoStrncpy (front ++ (old ++ after)) front.length (text ++ 0 :: behind) n =
      .ok (BitVec.ofNat width text.length,
        front ++ (text ++ 0 :: old.drop (text.length + 1)) ++ after) := by
  have room : 0 + old.length = n.toNat := (Nat.zero_add _).trans size
  have copied := copyLoop_fits plain (size ▸ fits) room front after behind
  have back : BitVec.ofNat width text.length + 1 - 1 = BitVec.ofNat width text.length :=
    BitVec.add_sub_cancel _ _
  have ended : BitVec.ofNat width text.length ≠ n := by
    intro same
    have reached := congrArg BitVec.toNat same
    rw [toNat_ofNat_of_le (Nat.le_of_lt fits)] at reached
    exact Nat.ne_of_lt fits reached
  change (copyLoop n _ (BitVec.ofNat width 0) _ _ >>= _) = _
  rw [copied, Outcome.ok_bind, Nat.zero_add]
  simp only [back, if_neg ended, Outcome.pure_eq, List.append_assoc]

/-- The text has not ended: the last character that was copied gives way to the terminator. -/
theorem autoStrncpy_full {n : BitVec width} {old text : List UInt8} (size : old.length = n.toNat)
    (positive : 1 ≤ n.toNat) (long : n.toNat ≤ text.length) (plain : 0 ∉ text)
    (front after behind : List UInt8) :
    autoStrncpy (front ++ (old ++ after)) front.length (text ++ 0 :: behind) n =
      .ok (n - 1, front ++ (text.take (n.toNat - 1) ++ [0]) ++ after) := by
  have room : 0 + old.length = n.toNat := (Nat.zero_add _).trans size
  have copied := copyLoop_full plain (size ▸ long) room front after behind
  have back : n + 1 - 1 = n := BitVec.add_sub_cancel _ _
  obtain ⟨c, read⟩ : ∃ c, text[n.toNat - 1]? = some c :=
    ⟨_, List.getElem?_eq_getElem (by omega)⟩
  have last : text.take old.length = text.take (n.toNat - 1) ++ [c] := by
    have split : old.length = n.toNat - 1 + 1 := by omega
    rw [split, List.take_add_one, read, Option.toList_some]
  have place : front.length + (n - 1).toNat = (front ++ text.take (n.toNat - 1)).length := by
    have less : (n - 1).toNat = n.toNat - 1 := toNat_sub_ofNat positive
    rw [less, List.length_append, List.length_take]
    omega
  have written : Buffer.write (front ++ text.take (n.toNat - 1) ++ c :: after)
      (front.length + (n - 1).toNat) 0 =
        (.ok (front ++ text.take (n.toNat - 1) ++ 0 :: after) : Outcome Empty _) :=
    Buffer.write_append place
  have whole : front ++ (text.take old.length ++ after) =
      front ++ text.take (n.toNat - 1) ++ c :: after := by
    rw [last]
    simp only [List.append_assoc, List.cons_append, List.nil_append]
  change (copyLoop n _ (BitVec.ofNat width 0) _ _ >>= _) = _
  rw [copied, Outcome.ok_bind, whole]
  simp only [back, if_true, written, Outcome.ok_bind, Outcome.pure_eq]
  simp only [List.append_assoc, List.cons_append, List.nil_append]

/-- **Copying.** As much of the text as fits is left in the bytes of the length. -/
theorem autoStrncpy_keeps {n : BitVec width} {old text : List UInt8} (size : old.length = n.toNat)
    (positive : 1 ≤ n.toNat) (plain : 0 ∉ text) (front after behind : List UInt8) :
    ∃ copied memory, autoStrncpy (front ++ (old ++ after)) front.length (text ++ 0 :: behind) n =
        .ok (copied, memory) ∧ copied.toNat = (text.take (n.toNat - 1)).length ∧
      ∃ left, (text.take (n.toNat - 1) ++ 0 :: left).length = n.toNat ∧
        memory = front ++ (text.take (n.toNat - 1) ++ 0 :: left) ++ after := by
  by_cases fits : text.length < n.toNat
  · have whole : text.take (n.toNat - 1) = text := List.take_of_length_le (by omega)
    rw [whole]
    refine ⟨_, _, autoStrncpy_fits size fits plain front after behind,
      toNat_ofNat_of_le (Nat.le_of_lt fits), _, ?_, rfl⟩
    simp only [List.length_append, List.length_cons, List.length_drop]
    omega
  · have long := Nat.le_of_not_lt fits
    have less : (n - 1).toNat = n.toNat - 1 := toNat_sub_ofNat positive
    refine ⟨_, _, autoStrncpy_full size positive long plain front after behind, ?_, [], ?_, rfl⟩
    · rw [less, List.length_take]
      omega
    · simp only [List.length_append, List.length_take, List.length_cons, List.length_nil]
      omega

/-- `strlen` of a place that holds a text. -/
theorem strlen_text {content : List UInt8} (plain : 0 ∉ content) (rest : List UInt8) :
    strlen (content ++ 0 :: rest) = .ok content.length := by
  have front : (content ++ 0 :: rest).takeWhile (· != 0) = content := by
    have nonzero : ∀ c ∈ content, (c != 0) = true := by
      intro c inside
      exact bne_iff_ne.mpr fun same => plain (same ▸ inside)
    rw [List.takeWhile_append_of_pos nonzero, List.takeWhile_cons_of_neg (by decide),
      List.append_nil]
  rw [strlen, if_pos (by simp), front]

/-- **Bounded copies.** Both functions leave the longest text that fits in `n - 1` characters in the
`n` bytes of the destination, with its terminator, and return how many characters of the source they
have copied. -/
theorem copies_bounded {content spare text : List UInt8} {n : BitVec width}
    (size : (content ++ 0 :: spare).length = n.toNat) (terminated : 0 ∉ content)
    (plain : 0 ∉ text) (front after behind : List UInt8) :
    (∃ copied memory kept,
      autoStrncpy (front ++ (content ++ 0 :: spare ++ after)) front.length (text ++ 0 :: behind) n =
          .ok (copied, memory) ∧
        Keeps n.toNat front after text kept memory ∧ copied.toNat = kept.length) ∧
      ∃ copied memory kept,
        autoStrncat (front ++ (content ++ 0 :: spare ++ after)) front.length (text ++ 0 :: behind)
            n = .ok (copied, memory) ∧
          Keeps n.toNat front after (content ++ text) (content ++ kept) memory ∧
            copied.toNat = kept.length := by
  have whole : content.length + (spare.length + 1) = n.toNat := by
    rw [← size, List.length_append, List.length_cons]
  have shorter : content.length ≤ n.toNat := by omega
  constructor
  · obtain ⟨copied, memory, done, count, left⟩ :=
      autoStrncpy_keeps size (by omega) plain front after behind
    exact ⟨copied, memory, _, done, ⟨longestFront_take _ text, left⟩, count⟩
  · have room : (n - BitVec.ofNat width content.length).toNat = spare.length + 1 := by
      rw [toNat_sub_ofNat shorter]
      omega
    have size' : (0 :: spare).length = (n - BitVec.ofNat width content.length).toNat := room.symm
    obtain ⟨copied, memory, done, count, left, sizeLeft, isMemory⟩ :=
      autoStrncpy_keeps size' (by omega) plain (front ++ content) after behind
    rw [room, Nat.add_sub_cancel] at count sizeLeft isMemory
    have longest := longestFront_take (n.toNat - 1) (content ++ text)
    have rest : n.toNat - 1 - content.length = spare.length := by omega
    rw [List.take_append, rest, List.take_of_length_le (by omega)] at longest
    refine ⟨copied, memory, text.take spare.length, ?_, ⟨longest, left, ?_, ?_⟩, count⟩
    · have found : strlen ((front ++ (content ++ 0 :: spare ++ after)).drop front.length) =
          .ok content.length := by
        rw [List.drop_left, List.append_assoc]
        exact strlen_text terminated (spare ++ after)
      rw [autoStrncat, found, Outcome.ok_bind]
      simpa only [toNat_ofNat_of_le shorter, List.length_append, List.append_assoc] using done
    · rw [List.append_assoc, List.length_append, sizeLeft]
      exact whole
    · simpa only [List.append_assoc] using isMemory

/-- `abc` and a destination of four bytes that holds `x`, between other memory. -/
theorem copies_bounded_four :
    (∃ copied memory kept,
      autoStrncpy [9, 120, 0, 7, 7, 5] 1 [97, 98, 99, 0] 4#64 = .ok (copied, memory) ∧
        Keeps 4 [9] [5] [97, 98, 99] kept memory ∧ copied.toNat = kept.length) ∧
      ∃ copied memory kept,
        autoStrncat [9, 120, 0, 7, 7, 5] 1 [97, 98, 99, 0] 4#64 = .ok (copied, memory) ∧
          Keeps 4 [9] [5] [120, 97, 98, 99] (120 :: kept) memory ∧
            copied.toNat = kept.length := by
  have size : ([120] ++ 0 :: [7, 7] : List UInt8).length = (4#64).toNat := rfl
  have plain : (0 : UInt8) ∉ [97, 98, 99] := by simp
  exact copies_bounded size (by simp) plain [9] [5] []

example : autoStrncat [9, 120, 0, 7, 7, 5] 1 [97, 98, 99, 0] 4#64 =
    .ok (2, [9, 120, 97, 98, 0, 5]) := rfl

end Cube.Eco
