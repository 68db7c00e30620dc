import Cube.Eco.FixBuffer

/-! # A buffer stays inside its array

Text with a length is cut to what fits. Text without one is not, and neither is what `erase` makes
of a size that is far larger than the text.
-/

namespace Cube.Eco

namespace FixBuffer

variable {fixSize : UInt32}

/-- The text that a buffer shows. -/
def text (b : FixBuffer fixSize) : CString := b.data.take b.curSize.toNat

/-- How many characters fit behind a text. -/
def room (fixSize : UInt32) (text : CString) : Nat := (capacity fixSize).toNat - text.length

/-- The size is within the capacity, and the character there is the terminator. -/
structure Sound (b : FixBuffer fixSize) : Prop where
  within : b.curSize.toNat ≤ (capacity fixSize).toNat
  terminated : b.data[b.curSize.toNat]? = some nul

/-- A buffer that shows a text, with a terminator or still without one. -/
structure Shows (b : FixBuffer fixSize) (text rest : CString) : Prop where
  data : b.data = text ++ rest
  curSize : b.curSize.toNat = text.length

/-- A terminated text. -/
def Holds (b : FixBuffer fixSize) (text : CString) : Prop := ∃ rest, b.Shows text (nul :: rest)

variable {b : FixBuffer fixSize} {text rest : CString}

theorem Shows.length (shows : b.Shows text rest) : text.length + rest.length = fixSize.toNat := by
  rw [← List.length_append, ← shows.data, b.held]

theorem Shows.text_eq (shows : b.Shows text rest) : b.text = text := by
  rw [FixBuffer.text, shows.data, shows.curSize, List.take_left]

theorem capacity_toNat {fixSize : UInt32} (pos : 0 < fixSize.toNat) :
    (capacity fixSize).toNat = fixSize.toNat - 1 := by
  have bound := fixSize.toNat_lt
  rw [capacity, UInt32.toNat_sub, UInt32.toNat_one]
  omega

/-- The room behind a terminated text is what its array has behind the terminator. -/
theorem Holds.room_eq (shows : b.Shows text (nul :: rest)) :
    (capacity fixSize).toNat = text.length + rest.length ∧ room fixSize text = rest.length := by
  have length := shows.length
  rw [List.length_cons] at length
  have total := capacity_toNat (by omega : 0 < fixSize.toNat)
  exact ⟨by omega, by rw [room]; omega⟩

theorem Holds.within (holds : b.Holds text) : text.length ≤ (capacity fixSize).toNat := by
  obtain ⟨rest, shows⟩ := holds
  rw [(Holds.room_eq shows).1]
  exact Nat.le_add_right ..

theorem Holds.sound (holds : b.Holds text) : b.Sound ∧ b.text = text := by
  have within := holds.within
  obtain ⟨rest, shows⟩ := holds
  refine ⟨⟨shows.curSize ▸ within, ?_⟩, shows.text_eq⟩
  rw [shows.data, shows.curSize, List.getElem?_append_right (Nat.le_refl _), Nat.sub_self,
    List.getElem?_cons_zero]

theorem Sound.holds (sound : b.Sound) : b.Holds b.text := by
  obtain ⟨inside, nul_eq⟩ := List.getElem?_eq_some_iff.mp sound.terminated
  refine ⟨b.data.drop (b.curSize.toNat + 1), ?_, ?_⟩
  · rw [FixBuffer.text, ← nul_eq, ← List.drop_eq_getElem_cons inside, List.take_append_drop]
  · rw [FixBuffer.text, List.length_take_of_le (Nat.le_of_lt inside)]

theorem Holds.avail (holds : b.Holds text) : b.avail.toNat = room fixSize text := by
  have within := holds.within
  obtain ⟨rest, shows⟩ := holds
  have bound := (capacity fixSize).toNat_lt
  rw [FixBuffer.avail, UInt32.toNat_sub, shows.curSize, room]
  omega

/-! ## Writing behind the text -/

theorem put_of_full (full : b.Shows text []) (v : Char) : b.put b.curSize.toNat v = .fault := by
  apply if_neg
  rw [full.data, full.curSize, List.append_nil]
  exact Nat.lt_irrefl _

theorem put_next {old : Char} (shows : b.Shows text (old :: rest)) (v : Char) :
    ∃ b', b.put b.curSize.toNat v = .ok b' ∧ b'.Shows text (v :: rest) := by
  have inside : b.curSize.toNat < b.data.length := by
    rw [shows.data, shows.curSize, List.length_append, List.length_cons]
    omega
  refine ⟨_, if_pos inside, ?_, shows.curSize⟩
  change b.data.set b.curSize.toNat v = _
  rw [shows.data, shows.curSize, List.set_append_right _ _ (Nat.le_refl _),
    Nat.sub_self, List.set_cons_zero]

/-- The size counts a character that was written behind the text. -/
theorem Shows.next {v : Char} (shows : b.Shows text (v :: rest)) :
    Shows { b with curSize := b.curSize + 1 } (text ++ [v]) rest := by
  have length := shows.length
  have bound := fixSize.toNat_lt
  rw [List.length_cons] at length
  constructor
  · rw [List.append_assoc]
    exact shows.data
  · change (b.curSize + 1).toNat = _
    rw [UInt32.toNat_add, UInt32.toNat_one, shows.curSize, List.length_append,
      List.length_singleton]
    omega

theorem cText_cons {c : Char} (buf : CString) :
    cText (c :: buf) = if c = nul then [] else c :: cText buf := by
  rw [cText, List.takeWhile_cons]
  by_cases stop : c = nul
  · rw [if_pos stop, if_neg (by simp [stop])]
  · rw [if_neg stop, if_pos (by simp [stop])]
    rfl

/-- Text without a length is written if its terminator still fits. -/
theorem appendText_shows (buf : CString) (shows : b.Shows text rest)
    (fits : (cText buf).length < rest.length) :
    ∃ b', b.appendText buf = .ok b' ∧ b'.Holds (text ++ cText buf) := by
  induction buf generalizing b text rest with
  | nil =>
      obtain ⟨old, rest, rfl⟩ := List.exists_cons_of_length_pos fits
      obtain ⟨b', written, shows'⟩ := put_next shows nul
      exact ⟨b', written, rest, by rw [cText, List.takeWhile_nil, List.append_nil]; exact shows'⟩
  | cons c buf ih =>
      obtain ⟨old, rest, rfl⟩ :=
        List.exists_cons_of_length_pos (Nat.lt_of_le_of_lt (Nat.zero_le _) fits)
      rw [cText_cons] at fits ⊢
      by_cases stop : c = nul
      · obtain ⟨b', written, shows'⟩ := put_next shows nul
        rw [if_pos stop, List.append_nil]
        exact ⟨b', (if_pos stop).trans written, rest, shows'⟩
      · rw [if_neg stop] at fits ⊢
        obtain ⟨b', written, shows'⟩ := put_next shows c
        obtain ⟨b'', appended, holds⟩ := ih shows'.next (Nat.lt_of_succ_lt_succ fits)
        refine ⟨b'', ?_, by rwa [List.append_assoc] at holds⟩
        rw [appendText, if_neg stop, written, Outcome.ok_bind]
        exact appended

/-- A longer text is written behind the array. -/
theorem appendText_full (buf : CString) (shows : b.Shows text rest)
    (full : rest.length ≤ (cText buf).length) : b.appendText buf = .fault := by
  induction buf generalizing b text rest with
  | nil =>
      obtain rfl : rest = [] := List.eq_nil_of_length_eq_zero (Nat.le_zero.mp full)
      exact put_of_full shows nul
  | cons c buf ih =>
      rw [cText_cons] at full
      by_cases stop : c = nul
      · rw [if_pos stop] at full
        obtain rfl : rest = [] := List.eq_nil_of_length_eq_zero (Nat.le_zero.mp full)
        exact (if_pos stop).trans (put_of_full shows nul)
      · rw [if_neg stop] at full
        rw [appendText, if_neg stop]
        cases rest with
        | nil => rw [put_of_full shows c, Outcome.fault_bind]
        | cons old rest =>
            obtain ⟨b', written, shows'⟩ := put_next shows c
            rw [written, Outcome.ok_bind]
            exact ih shows'.next (Nat.le_of_succ_le_succ full)

/-! ## Text with a length -/

/-- What `append` takes of a text. -/
def taken (fixSize : UInt32) (text : CString) (size : UInt32) : Nat :=
  min size.toNat (room fixSize text)

theorem Holds.appendSize (holds : b.Holds text) (size : UInt32) :
    (if b.avail > size then size else b.avail).toNat = taken fixSize text size := by
  have avail := holds.avail
  rw [taken]
  by_cases more : b.avail > size
  · rw [if_pos more]
    have less := UInt32.lt_iff_toNat_lt.mp more
    omega
  · rw [if_neg more]
    have less := UInt32.not_lt.mp more
    rw [UInt32.le_iff_toNat_le] at less
    omega

/-- Values are copied behind a text, and the size counts them. -/
theorem copy_next (shows : b.Shows text rest) {values : CString} {count : UInt32}
    (counts : count.toNat = values.length) (fits : values.length ≤ rest.length) :
    ∃ b', b.copy b.curSize.toNat values = .ok b' ∧
      Shows { b' with curSize := b'.curSize + count } (text ++ values)
        (rest.drop values.length) := by
  have length := shows.length
  have bound := fixSize.toNat_lt
  have inside : b.curSize.toNat + values.length ≤ b.data.length := by
    rw [shows.curSize, b.held]
    omega
  refine ⟨_, dif_pos inside, ?_, ?_⟩
  · change Buffer.overwrite b.data b.curSize.toNat values = _
    rw [Buffer.overwrite, shows.data, shows.curSize, List.take_left, ← List.drop_drop,
      List.drop_left]
  · change (b.curSize + count).toNat = _
    rw [UInt32.toNat_add, counts, shows.curSize, List.length_append]
    omega

theorem append_holds (holds : b.Holds text) (buf : CString) {size : UInt32}
    (readable : taken fixSize text size ≤ buf.length) :
    ∃ b', b.append buf size = .ok b' ∧ b'.Holds (text ++ buf.take (taken fixSize text size)) := by
  have count := holds.appendSize size
  rw [append]
  generalize (if b.avail > size then size else b.avail) = appendSize at count ⊢
  by_cases some : appendSize > 0
  · obtain ⟨rest, shows⟩ := holds
    have partLength : (buf.take (taken fixSize text size)).length = taken fixSize text size :=
      List.length_take_of_le readable
    have small : taken fixSize text size < (nul :: rest).length := by
      rw [taken, (Holds.room_eq shows).2, List.length_cons]
      exact Nat.lt_succ_of_le (Nat.min_le_right ..)
    have part : (Buffer.slice buf 0 appendSize.toNat : Outcome Empty CString) =
        .ok (buf.take (taken fixSize text size)) := by
      rw [count]
      exact Buffer.slice_eq_ok.mpr ⟨by omega, rfl⟩
    obtain ⟨copied, copy_eq, copiedShows⟩ := copy_next shows (count.trans partLength.symm)
      (by rw [partLength]; exact Nat.le_of_lt small)
    rw [partLength, List.drop_eq_getElem_cons small] at copiedShows
    obtain ⟨b', terminated, shows'⟩ := put_next copiedShows nul
    refine ⟨b', ?_, _, shows'⟩
    rw [if_pos some, part, Outcome.ok_bind, copy_eq, Outcome.ok_bind]
    exact terminated
  · have none : taken fixSize text size = 0 := by
      rw [← count]
      have zero := UInt32.not_lt.mp some
      rw [UInt32.le_iff_toNat_le, UInt32.toNat_zero] at zero
      exact Nat.le_zero.mp zero
    rw [if_neg some, none, List.take_zero, List.append_nil]
    exact ⟨b, rfl, holds⟩

theorem append_unreadable (holds : b.Holds text) {buf : CString} {size : UInt32}
    (unreadable : buf.length < taken fixSize text size) : b.append buf size = .fault := by
  have count := holds.appendSize size
  rw [append]
  generalize (if b.avail > size then size else b.avail) = appendSize at count ⊢
  have some : appendSize > 0 := by
    rw [gt_iff_lt, UInt32.lt_iff_toNat_lt, count, UInt32.toNat_zero]
    omega
  have outside : (Buffer.slice buf 0 appendSize.toNat : Outcome Empty CString) = .fault := by
    apply if_neg
    rw [count]
    omega
  rw [if_pos some, outside]
  rfl

theorem appendChar_holds (holds : b.Holds text) (v : Char) :
    ∃ b', b.appendChar v = .ok b' ∧ b'.Holds (text ++ [v].take (room fixSize text)) := by
  have avail := holds.avail
  rw [appendChar]
  by_cases fits : b.avail ≥ 1
  · obtain ⟨rest, shows⟩ := holds
    have some : 1 ≤ room fixSize text := by
      rw [ge_iff_le, UInt32.le_iff_toNat_le, avail] at fits
      exact fits
    have behind : 0 < rest.length := by
      rw [← (Holds.room_eq shows).2]
      exact some
    obtain ⟨old, rest, rfl⟩ := List.exists_cons_of_length_pos behind
    obtain ⟨b', written, shows'⟩ := put_next shows v
    obtain ⟨b'', terminated, shows''⟩ := put_next shows'.next nul
    refine ⟨b'', ?_, rest, ?_⟩
    · rw [if_pos fits, written, Outcome.ok_bind]
      exact terminated
    · rw [List.take_of_length_le some]
      exact shows''
  · have none : room fixSize text = 0 := by
      rw [← avail]
      rw [ge_iff_le, UInt32.le_iff_toNat_le, UInt32.toNat_one] at fits
      omega
    rw [if_neg fits, none, List.take_zero, List.append_nil]
    exact ⟨b, rfl, holds⟩

/-! ## Erasing -/

/-- A terminator inside the array cuts what the buffer holds. -/
theorem put_nul (b : FixBuffer fixSize) (inside : b.curSize.toNat < fixSize.toNat) :
    ∃ b', b.put b.curSize.toNat nul = .ok b' ∧ b'.Holds b.text := by
  have held := b.held
  have size : (b.data.take b.curSize.toNat).length = b.curSize.toNat :=
    List.length_take_of_le (by omega)
  have shows : b.Shows b.text (b.data.drop b.curSize.toNat) :=
    ⟨(List.take_append_drop ..).symm, size.symm⟩
  rw [List.drop_eq_getElem_cons (by omega)] at shows
  obtain ⟨b', written, shows'⟩ := put_next shows nul
  exact ⟨b', written, _, shows'⟩

theorem clear_holds (pos : 0 < fixSize.toNat) (b : FixBuffer fixSize) :
    ∃ b', b.clear = .ok b' ∧ b'.Holds [] :=
  put_nul { b with curSize := 0 } pos

/-- The size that `erase` leaves. -/
def erasedSize (text : CString) (size : UInt32) : Nat :=
  if size.toNat ≤ text.length + 2 ^ 31 then
    if text.length < size.toNat + 2 ^ 31 then text.length - size.toNat else 0
  else text.length + 2 ^ 32 - size.toNat

theorem erased_toNat (holds : b.Holds text) (size : UInt32) :
    (if signed32 (b.curSize - size) > 0 then UInt32.ofNat (signed32 (b.curSize - size)).toNat
      else 0).toNat = erasedSize text size := by
  obtain ⟨rest, shows⟩ := holds
  have length := shows.length
  have bound := fixSize.toNat_lt
  have sizeBound := size.toNat_lt
  have difference : (b.curSize - size).toNat = (2 ^ 32 - size.toNat + text.length) % 2 ^ 32 := by
    rw [UInt32.toNat_sub, shows.curSize]
  have small := (b.curSize - size).toNat_lt
  rw [signed32, erasedSize, apply_ite UInt32.toNat, UInt32.toNat_ofNat', UInt32.toNat_zero]
  generalize (b.curSize - size).toNat = value at difference small ⊢
  split_ifs <;> omega

theorem erase_holds (holds : b.Holds text) {size : UInt32}
    (inside : erasedSize text size ≤ (capacity fixSize).toNat) :
    ∃ b', b.erase size = .ok b' ∧ b'.Holds (b.data.take (erasedSize text size)) := by
  have count := erased_toNat holds size
  obtain ⟨rest, shows⟩ := holds
  have length := shows.length
  rw [List.length_cons] at length
  have total := capacity_toNat (by omega : 0 < fixSize.toNat)
  rw [← count] at inside ⊢
  exact put_nul { b with
    curSize :=
      if signed32 (b.curSize - size) > 0 then UInt32.ofNat (signed32 (b.curSize - size)).toNat
      else 0 } (Nat.lt_of_le_of_lt inside (by omega))

/-- What is erased of a text that is not far shorter than the size leaves a prefix. -/
theorem take_erasedSize (holds : b.Holds text) {size : UInt32}
    (usual : size.toNat ≤ text.length + 2 ^ 31) :
    b.data.take (erasedSize text size) <+: text := by
  obtain ⟨rest, shows⟩ := holds
  have fewer : erasedSize text size ≤ text.length := by
    rw [erasedSize, if_pos usual]
    split_ifs <;> omega
  rw [shows.data, List.take_append_of_le_length fewer]
  exact List.take_prefix ..

theorem erase_outside (holds : b.Holds text) {size : UInt32}
    (outside : (capacity fixSize).toNat < erasedSize text size) : b.erase size = .fault := by
  have count := erased_toNat holds size
  obtain ⟨rest, shows⟩ := holds
  have length := shows.length
  rw [List.length_cons] at length
  have total := capacity_toNat (by omega : 0 < fixSize.toNat)
  have behind : fixSize.toNat ≤ erasedSize text size := by omega
  rw [← count] at behind
  apply if_neg
  change ¬ _ < b.data.length
  rw [b.held]
  exact Nat.not_lt.mpr behind

/-- Room is made by erasing, if at all. -/
theorem force_holds (holds : b.Holds text) (size : UInt32) :
    ∃ b' kept, b.force size = .ok b' ∧ kept <+: text ∧ b'.Holds kept := by
  rw [force]
  by_cases some : signed32 (size - b.avail) > 0
  · have small : (UInt32.ofNat (signed32 (size - b.avail)).toNat).toNat < 2 ^ 31 := by
      have bound := (size - b.avail).toNat_lt
      rw [signed32] at some ⊢
      rw [UInt32.toNat_ofNat']
      split_ifs at some ⊢ <;> omega
    generalize UInt32.ofNat (signed32 (size - b.avail)).toNat = eraseSize at small ⊢
    have within := holds.within
    have usual : eraseSize.toNat ≤ text.length + 2 ^ 31 := by omega
    have inside : erasedSize text eraseSize ≤ (capacity fixSize).toNat := by
      rw [erasedSize, if_pos usual]
      split_ifs <;> omega
    obtain ⟨b', erased, holds'⟩ := erase_holds holds inside
    exact ⟨b', _, (if_pos some).trans erased, take_erasedSize holds usual, holds'⟩
  · exact ⟨b, text, if_neg some, List.prefix_refl text, holds⟩

end FixBuffer

/-! ## Operations -/

theorem Sized.size_toNat (text : Sized) : text.size.toNat = text.chars.length := by
  rw [size, UInt32.toNat_ofNat']
  exact Nat.mod_eq_of_lt text.fits

namespace BufferOp

open FixBuffer

variable {fixSize : UInt32}

/-- The condition under which an operation stays inside. -/
def Fits (op : BufferOp) (b : FixBuffer fixSize) : Prop :=
  match op with
  | assignText buf => (cText buf).length ≤ (capacity fixSize).toNat
  | appendText buf => (cText buf).length ≤ room fixSize b.text
  | appendString buf => buf.length < 2 ^ 32 ∨ room fixSize b.text ≤ buf.length % 2 ^ 32
  | appendDouble text => text.chars.length < 64 ∨ room fixSize b.text < 64
  | erase size =>
      size.toNat ≤ b.text.length + 2 ^ 31 ∨
        b.text.length + 2 ^ 32 ≤ size.toNat + (capacity fixSize).toNat
  | _ => True

/-- The longest prefix of a text that fits stands behind another one. -/
def Longest (fixSize : UInt32) (text added text' : CString) : Prop :=
  text' = text ++ added.take (room fixSize text)

/-- What an append adds to the text, and an assignment to none. A forced one may have erased some
of it. -/
def Adds (op : BufferOp) (b b' : FixBuffer fixSize) : Prop :=
  match op with
  | assignText buf => Longest fixSize [] (cText buf) b'.text
  | assign buf => Longest fixSize [] buf.chars b'.text
  | appendText buf => Longest fixSize b.text (cText buf) b'.text
  | append buf => Longest fixSize b.text buf.chars b'.text
  | appendString buf => Longest fixSize b.text buf b'.text
  | appendDouble text => Longest fixSize b.text text.chars b'.text
  | appendChar v => Longest fixSize b.text [v] b'.text
  | forceAppend buf => ∃ kept, kept <+: b.text ∧ Longest fixSize kept buf.chars b'.text
  | forceAppendChar v => ∃ kept, kept <+: b.text ∧ Longest fixSize kept [v] b'.text
  | force _ => b'.text <+: b.text
  | erase _ => True
  | clear => b'.text = []

/-- An operation is right: it is defined, leaves a terminated text within the capacity, and adds
what it should. -/
def Right (op : BufferOp) (b : FixBuffer fixSize) : Prop :=
  ∃ b', op.step b = .ok b' ∧ b'.Sound ∧ op.Adds b b'

/-- All operations of a run are right. -/
def Keeps (b : FixBuffer fixSize) : List BufferOp → Prop
  | [] => True
  | op :: ops => ∃ b', op.step b = .ok b' ∧ b'.Sound ∧ op.Adds b b' ∧ Keeps b' ops

/-- All operations of a run meet their conditions, each on the buffer before it. -/
def Meets (b : FixBuffer fixSize) : List BufferOp → Prop
  | [] => True
  | op :: ops => op.Fits b ∧ ∀ b', op.step b = .ok b' → Meets b' ops

section Step

variable {b : FixBuffer fixSize} {text : CString}

theorem sized_taken (text : CString) (buf : Sized) :
    buf.chars.take (taken fixSize text buf.size) = buf.chars.take (room fixSize text) ∧
      taken fixSize text buf.size ≤ buf.chars.length := by
  rw [taken, buf.size_toNat]
  refine ⟨?_, Nat.min_le_left ..⟩
  rcases Nat.le_total buf.chars.length (room fixSize text) with short | long
  · rw [Nat.min_eq_left short, List.take_of_length_le short, List.take_length]
  · rw [Nat.min_eq_right long]

theorem append_right {kept : CString} (holds : b.Holds kept) (buf : Sized) :
    ∃ b', b.append buf.chars buf.size = .ok b' ∧ b'.Sound ∧
      Longest fixSize kept buf.chars b'.text := by
  obtain ⟨same, readable⟩ := @sized_taken fixSize kept buf
  obtain ⟨b', appended, holds'⟩ := append_holds holds buf.chars readable
  rw [same] at holds'
  exact ⟨b', appended, holds'.sound.1, holds'.sound.2⟩

theorem appendChar_right {kept : CString} (holds : b.Holds kept) (v : Char) :
    ∃ b', b.appendChar v = .ok b' ∧ b'.Sound ∧ Longest fixSize kept [v] b'.text := by
  obtain ⟨b', appended, holds'⟩ := appendChar_holds holds v
  exact ⟨b', appended, holds'.sound.1, holds'.sound.2⟩

/-- Text without a length is right exactly if it fits. -/
theorem appendText_iff {kept : CString} (holds : b.Holds kept) (buf : CString) :
    (∃ b', b.appendText buf = .ok b' ∧ b'.Sound ∧
      Longest fixSize kept (cText buf) b'.text) ↔ (cText buf).length ≤ room fixSize kept := by
  obtain ⟨rest, shows⟩ := holds
  have room_eq := (Holds.room_eq shows).2
  rw [room_eq]
  by_cases fits : (cText buf).length ≤ rest.length
  · obtain ⟨b', appended, holds'⟩ := appendText_shows buf shows (Nat.lt_succ_of_le fits)
    refine iff_of_true ⟨b', appended, holds'.sound.1, ?_⟩ fits
    rw [Longest, holds'.sound.2, List.take_of_length_le (by rw [room_eq]; exact fits)]
  · rw [appendText_full buf shows (Nat.lt_of_not_le fits)]
    refine iff_of_false ?_ fits
    rintro ⟨b', ⟨⟩, -⟩

end Step

section Step

variable {b : FixBuffer fixSize}

/-- A `std::string` is right exactly if the cast of its size loses nothing that fits. -/
theorem appendString_iff (holds : b.Holds b.text) (buf : CString) :
    (∃ b', b.append buf (UInt32.ofNat buf.length) = .ok b' ∧ b'.Sound ∧
        Longest fixSize b.text buf b'.text) ↔
      buf.length < 2 ^ 32 ∨ room fixSize b.text ≤ buf.length % 2 ^ 32 := by
  have count : taken fixSize b.text (UInt32.ofNat buf.length) =
      min (buf.length % 2 ^ 32) (room fixSize b.text) := by
    rw [taken, UInt32.toNat_ofNat']
  have less : buf.length % 2 ^ 32 ≤ buf.length := Nat.mod_le ..
  have readable : taken fixSize b.text (UInt32.ofNat buf.length) ≤ buf.length := by omega
  obtain ⟨b', appended, holds'⟩ := append_holds holds buf readable
  have only : (∃ b', b.append buf (UInt32.ofNat buf.length) = .ok b' ∧ b'.Sound ∧
      Longest fixSize b.text buf b'.text) ↔
        buf.take (taken fixSize b.text (UInt32.ofNat buf.length)) =
          buf.take (room fixSize b.text) := by
    constructor
    · rintro ⟨again, appended', -, longest⟩
      obtain rfl := Outcome.ok.inj (appended.symm.trans appended')
      rw [Longest, holds'.sound.2] at longest
      exact List.append_cancel_left longest
    · intro same
      exact ⟨b', appended, holds'.sound.1, holds'.sound.2.trans (by rw [same])⟩
  rw [only, count]
  constructor
  · intro same
    have lengths := congrArg List.length same
    simp only [List.length_take] at lengths
    omega
  · rintro (small | filled)
    · rw [Nat.mod_eq_of_lt small]
      rcases Nat.le_total buf.length (room fixSize b.text) with short | long
      · rw [Nat.min_eq_left short, List.take_length, List.take_of_length_le short]
      · rw [Nat.min_eq_right long]
    · rw [Nat.min_eq_right filled]

/-- A number is right exactly if its text fits into the buffer that it is printed to, or only the
part of it that does is asked for. -/
theorem appendDouble_iff (holds : b.Holds b.text) (text : DoubleText) :
    (∃ b', b.append text.buf text.size = .ok b' ∧ b'.Sound ∧
        Longest fixSize b.text text.chars b'.text) ↔
      text.chars.length < 64 ∨ room fixSize b.text < 64 := by
  have size : text.size.toNat = text.chars.length := by
    rw [DoubleText.size, UInt32.toNat_ofNat']
    exact Nat.mod_eq_of_lt (Nat.lt_trans text.fits (by decide))
  have count : taken fixSize b.text text.size =
      min text.chars.length (room fixSize b.text) := by rw [taken, size]
  have bufLength : text.buf.length = min 63 text.chars.length + 1 := by
    rw [DoubleText.buf, List.length_append, List.length_take, List.length_singleton]
  by_cases readable : taken fixSize b.text text.size ≤ text.buf.length
  · obtain ⟨b', appended, holds'⟩ := append_holds holds text.buf readable
    have only : (∃ b', b.append text.buf text.size = .ok b' ∧ b'.Sound ∧
        Longest fixSize b.text text.chars b'.text) ↔
          text.buf.take (min text.chars.length (room fixSize b.text)) =
            text.chars.take (room fixSize b.text) := by
      constructor
      · rintro ⟨again, appended', -, longest⟩
        obtain rfl := Outcome.ok.inj (appended.symm.trans appended')
        rw [Longest, holds'.sound.2, count] at longest
        exact List.append_cancel_left longest
      · intro same
        exact ⟨b', appended, holds'.sound.1, holds'.sound.2.trans (by rw [count, same])⟩
    rw [only]
    by_cases fits : text.chars.length < 64 ∨ room fixSize b.text < 64
    · refine iff_of_true ?_ fits
      have front : (text.chars.take 63).take (min text.chars.length (room fixSize b.text)) =
          text.chars.take (room fixSize b.text) := by
        rw [List.take_take, List.take_eq_take_iff]
        omega
      rw [DoubleText.buf, List.take_append_of_le_length (by rw [List.length_take]; omega), front]
    · -- The terminator of the cut text is taken for its 64th character.
      refine iff_of_false ?_ fits
      rw [not_or, Nat.not_lt, Nat.not_lt] at fits
      have exactly : min text.chars.length (room fixSize b.text) = text.buf.length := by omega
      rw [exactly, List.take_length]
      intro same
      have member : nul ∈ text.chars.take (room fixSize b.text) := by
        rw [← same, DoubleText.buf]
        exact List.mem_append_right _ (List.mem_singleton_self nul)
      exact text.plain nul (List.mem_of_mem_take member) rfl
  · rw [append_unreadable holds (Nat.lt_of_not_le readable)]
    refine iff_of_false ?_ ?_
    · rintro ⟨b', ⟨⟩, -⟩
    · omega

theorem erase_iff (holds : b.Holds b.text) (size : UInt32) :
    (∃ b', b.erase size = .ok b' ∧ b'.Sound ∧ True) ↔
      size.toNat ≤ b.text.length + 2 ^ 31 ∨
        b.text.length + 2 ^ 32 ≤ size.toNat + (capacity fixSize).toNat := by
  have within := holds.within
  have inside_iff : erasedSize b.text size ≤ (capacity fixSize).toNat ↔
      size.toNat ≤ b.text.length + 2 ^ 31 ∨
        b.text.length + 2 ^ 32 ≤ size.toNat + (capacity fixSize).toNat := by
    rw [erasedSize]
    split_ifs <;> omega
  rw [← inside_iff]
  by_cases inside : erasedSize b.text size ≤ (capacity fixSize).toNat
  · obtain ⟨b', erased, holds'⟩ := erase_holds holds inside
    exact iff_of_true ⟨b', erased, holds'.sound.1, trivial⟩ inside
  · rw [erase_outside holds (Nat.lt_of_not_le inside)]
    refine iff_of_false ?_ inside
    rintro ⟨b', ⟨⟩, -⟩

/-- An operation on a sound buffer is right exactly under its condition. -/
theorem right_iff (op : BufferOp) (sound : b.Sound) : op.Right b ↔ op.Fits b := by
  have holds := sound.holds
  have pos : 0 < fixSize.toNat := by
    obtain ⟨inside, -⟩ := List.getElem?_eq_some_iff.mp sound.terminated
    rw [b.held] at inside
    omega
  have emptyRoom : room fixSize [] = (capacity fixSize).toNat := Nat.sub_zero _
  cases op with
  | assignText buf =>
      obtain ⟨empty, cleared, holds'⟩ := clear_holds pos b
      have text := appendText_iff holds' buf
      rw [emptyRoom] at text
      rw [Right, step, cleared, Outcome.ok_bind]
      exact text
  | assign buf =>
      obtain ⟨empty, cleared, holds'⟩ := clear_holds pos b
      refine iff_of_true ?_ trivial
      rw [Right, step, cleared, Outcome.ok_bind]
      exact append_right holds' buf
  | appendText buf => exact appendText_iff holds buf
  | append buf => exact iff_of_true (append_right holds buf) trivial
  | appendString buf => exact appendString_iff holds buf
  | appendDouble text => exact appendDouble_iff holds text
  | appendChar v => exact iff_of_true (appendChar_right holds v) trivial
  | forceAppend buf =>
      obtain ⟨forced, kept, made, isPrefix, holds'⟩ := force_holds holds buf.size
      obtain ⟨b', appended, sound', longest⟩ := append_right holds' buf
      refine iff_of_true ⟨b', ?_, sound', kept, isPrefix, longest⟩ trivial
      rw [step, made, Outcome.ok_bind, appended]
  | forceAppendChar v =>
      obtain ⟨forced, kept, made, isPrefix, holds'⟩ := force_holds holds 1
      obtain ⟨b', appended, sound', longest⟩ := appendChar_right holds' v
      refine iff_of_true ⟨b', ?_, sound', kept, isPrefix, longest⟩ trivial
      rw [step, made, Outcome.ok_bind, appended]
  | force size =>
      obtain ⟨b', kept, made, isPrefix, holds'⟩ := force_holds holds size
      rw [← holds'.sound.2] at isPrefix
      exact iff_of_true ⟨b', made, holds'.sound.1, isPrefix⟩ trivial
  | erase size => exact erase_iff holds size
  | clear =>
      obtain ⟨empty, cleared, holds'⟩ := clear_holds pos b
      exact iff_of_true ⟨empty, cleared, holds'.sound.1, holds'.sound.2⟩ trivial

/-- A run from a sound buffer is right exactly if its operations meet their conditions. -/
theorem keeps_iff_meets (sound : b.Sound) (ops : List BufferOp) : Keeps b ops ↔ Meets b ops := by
  induction ops generalizing b with
  | nil => exact Iff.rfl
  | cons op ops ih =>
      have one := right_iff op sound
      constructor
      · rintro ⟨b', stepped, sound', adds, keeps⟩
        refine ⟨one.mp ⟨b', stepped, sound', adds⟩, ?_⟩
        intro again stepped'
        obtain rfl := Outcome.ok.inj (stepped.symm.trans stepped')
        exact (ih sound').mp keeps
      · rintro ⟨fits, meets⟩
        obtain ⟨b', stepped, sound', adds⟩ := one.mpr fits
        exact ⟨b', stepped, sound', adds, (ih sound').mpr (meets b' stepped)⟩

end Step

end BufferOp

namespace FixBuffer

/-- **Inside the array.** In every run of buffer operations and insertions from the constructor on,
all operations are right if and only if each meets its condition on the buffer before it. -/
theorem stays_inside_iff {fixSize : UInt32} (raw : RawArray fixSize) (commands : List Command) :
    (∃ b, construct raw = .ok b ∧ b.Sound ∧ BufferOp.Keeps b (Command.ops commands false)) ↔
      ∃ b, construct raw = .ok b ∧ BufferOp.Meets b (Command.ops commands false) := by
  obtain ⟨empty, constructed, holds⟩ := clear_holds raw.pos ⟨raw.data, 0, raw.held⟩
  constructor
  · rintro ⟨b, made, sound, keeps⟩
    exact ⟨b, made, (BufferOp.keeps_iff_meets sound _).mp keeps⟩
  · rintro ⟨b, made, meets⟩
    obtain rfl := Outcome.ok.inj (constructed.symm.trans made)
    exact ⟨empty, made, holds.sound.1, (BufferOp.keeps_iff_meets holds.sound.1 _).mpr meets⟩

/-- An array of four characters. -/
def fourChars : RawArray 4 := ⟨['?', '?', '?', '?'], rfl, by decide⟩

/-- Four characters without a length, in a buffer for three. -/
theorem overflows : ¬ ∃ b, construct fourChars = .ok b ∧ b.Sound ∧
    BufferOp.Keeps b (Command.ops [.insert (.text ['a', 'b', 'c', 'd'])] false) := by
  rintro ⟨b, made, -, b', appended, -⟩
  cases made
  cases appended

end FixBuffer

end Cube.Eco
