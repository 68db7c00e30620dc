import Mathlib.Algebra.Group.Even
import Cube.Fndnet.Segmentation

/-! # A packet behind garbage

The byte behind a start mark is read before it is known whether it is the start flag. A run of
start marks is therefore read in pairs, and the start mark of a packet is lost when it makes the
second of a pair.
-/

namespace Cube.Fndnet

open Scanner Cube.Fndnet.Parser

/-- The number of start marks at the end. -/
def trailingMarks (garbage : List UInt8) : Nat := (garbage.reverse.takeWhile (· == STX)).length

/-- No start mark is followed by the start flag. -/
def Clean (garbage : List UInt8) : Prop := ¬ [STX, PACKET_START_FLAG] <:+: garbage

instance : DecidablePred Clean := fun _ => inferInstanceAs (Decidable (¬ _ <:+: _))

/-- The reads of some chunks, among whose packets is this one. -/
def Delivered (parser : Parser) (chunks : List Chunk) (packet : WnPacket) : Prop :=
  ∃ next notices, Receives parser chunks next notices ∧ .receiveData packet ∈ notices

theorem trailingMarks_append_mark (garbage : List UInt8) :
    trailingMarks (garbage ++ [STX]) = trailingMarks garbage + 1 := by
  rw [trailingMarks, List.reverse_append, List.reverse_singleton, List.singleton_append,
    List.takeWhile_cons_of_pos (by decide), List.length_cons, trailingMarks]

theorem trailingMarks_append_other (garbage : List UInt8) {byte : UInt8} (other : byte ≠ STX) :
    trailingMarks (garbage ++ [byte]) = 0 := by
  rw [trailingMarks, List.reverse_append, List.reverse_singleton, List.singleton_append,
    List.takeWhile_cons_of_neg (by simpa using other), List.length_nil]

/-- Behind an odd run of start marks the last byte is one. -/
theorem eq_append_mark {garbage : List UInt8} (odd : trailingMarks garbage % 2 = 1) :
    ∃ front, garbage = front ++ [STX] := by
  rcases List.eq_nil_or_concat garbage with rfl | ⟨front, last, rfl⟩
  · exact absurd odd (by decide)
  · rw [List.concat_eq_append] at odd ⊢
    by_cases mark : last = STX
    · exact ⟨front, by rw [mark]⟩
    · rw [trailingMarks_append_other front mark] at odd
      exact absurd odd (by decide)

namespace Parser

variable {parser next : Parser} {notices : List Notice}

/-- Garbage leaves the parser behind a start mark, or not, as the run at its end is odd or even. -/
theorem feed_garbage (idle : parser.unReadBytes = 0) {garbage : List UInt8}
    (clean : Clean garbage) : feed take parser garbage =
      some ({ parser with unReadBytes := trailingMarks garbage % 2 }, []) := by
  have same : { parser with unReadBytes := 0 } = parser := by
    rw [← idle]
  induction garbage using List.reverseRecOn with
  | nil => exact congrArg (fun found => some (found, [])) same.symm
  | append_singleton garbage byte ih =>
      have cleanFront : Clean garbage :=
        fun inside => clean (inside.trans (List.prefix_append _ _).isInfix)
      rw [feed_append_of (ih cleanFront), feed_singleton]
      rcases Nat.mod_two_eq_zero_or_one (trailingMarks garbage) with even | odd
      · rw [even, same, take_search idle]
        by_cases mark : byte = STX
        · rw [if_pos mark, mark, trailingMarks_append_mark, Nat.add_mod, even]
          rfl
        · rw [if_neg mark, trailingMarks_append_other garbage mark, Nat.zero_mod, same]
          rfl
      · obtain ⟨front, split⟩ := eq_append_mark odd
        have other : byte ≠ PACKET_START_FLAG := by
          rintro rfl
          refine clean ⟨front, [], ?_⟩
          rw [split]
          simp
        rw [odd, take_flag rfl, takeFlag, if_neg other]
        by_cases mark : byte = STX
        · rw [mark, trailingMarks_append_mark, Nat.add_mod, odd]
          rfl
        · rw [trailingMarks_append_other garbage mark]
          rfl

/-- A byte adds at most one to what is read, and a packet is no longer than what was read. -/
theorem length_of_take {byte : UInt8} (valid : parser.Valid)
    (taken : parser.take byte = some (next, notices)) :
    next.unReadBytes ≤ parser.unReadBytes + 1 ∧
      ∀ packet, .receiveData packet ∈ notices → packet.data.length ≤ parser.unReadBytes + 1 := by
  cases taken_of_take taken with
  | skipped => exact ⟨Nat.le_succ _, nofun⟩
  | marked => exact ⟨Nat.le_add_left 1 _, nofun⟩
  | flagged marked => exact ⟨by rw [marked], nofun⟩
  | unflagged => exact ⟨Nat.zero_le _, nofun⟩
  | header => exact ⟨Nat.le_refl _, nofun⟩
  | badHeader => exact ⟨Nat.zero_le _, by simp⟩
  | announced => exact ⟨Nat.le_refl _, nofun⟩
  | body => exact ⟨Nat.le_refl _, nofun⟩
  | badBody => exact ⟨Nat.zero_le _, by simp⟩
  | received read complete =>
      refine ⟨Nat.zero_le _, fun packet member => ?_⟩
      cases List.mem_singleton.mp member
      have header := valid.header
      simp only [WnPacket.ofReceived, WnPacket.bytes, List.length_append, List.length_cons,
        List.length_take, List.length_nil, header, Header.size]
      omega

/-- A packet is no longer than the bytes it can come from. -/
theorem length_of_feed {bytes : List UInt8} (valid : parser.Valid)
    (fed : feed take parser bytes = some (next, notices)) {packet : WnPacket}
    (received : .receiveData packet ∈ notices) :
    packet.data.length ≤ parser.unReadBytes + bytes.length := by
  induction bytes generalizing parser notices with
  | nil =>
      rw [feed_nil] at fed
      cases fed
      exact absurd received List.not_mem_nil
  | cons byte bytes ih =>
      cases taken : parser.take byte with
      | none => rw [feed_cons, taken] at fed; cases fed
      | some first =>
          obtain ⟨middle, told⟩ := first
          obtain ⟨more, whole⟩ := length_of_take valid taken
          rw [feed_cons_of taken, Option.map_eq_some_iff] at fed
          obtain ⟨⟨found, later⟩, rest, same⟩ := fed
          cases same
          rw [List.length_cons]
          rcases List.mem_append.mp received with here | there
          · have := whole packet here
            omega
          · have := ih (valid_take valid taken) rest there
            omega

end Parser

/-- **A packet behind garbage is delivered exactly where the run of start marks at the end of the
garbage is even.** -/
theorem delivered_iff {parser : Parser} (typed : parser.Typed) (idle : parser.unReadBytes = 0)
    {garbage : List UInt8} (clean : Clean garbage) {pbData : List UInt8} {index flag : UInt8}
    {packet : WnPacket} (built : WnPacket.ofBody pbData index flag = some packet)
    {chunks : List Chunk} (sent : stream chunks = garbage ++ packet.data) :
    Delivered parser chunks packet ↔ Even (trailingMarks garbage) := by
  have valid := typed.valid idle
  have scanned : Delivered parser chunks packet ↔ ∃ next notices,
      feed take parser (garbage ++ packet.data) = some (next, notices) ∧
        .receiveData packet ∈ notices := by
    rw [← sent, Delivered]
    simp only [receives_iff valid]
  have same : { parser with unReadBytes := 0 } = parser := by
    rw [← idle]
  rw [scanned, feed_append_of (feed_garbage idle clean), Nat.even_iff]
  rcases Nat.mod_two_eq_zero_or_one (trailingMarks garbage) with even | odd
  · rw [even, same, feed_packet typed idle built]
    exact iff_of_true ⟨_, _, rfl, List.mem_singleton_self _⟩ rfl
  · rw [odd]
    refine iff_of_false (fun ⟨next, notices, fed, received⟩ => ?_) (by decide)
    -- the start mark of the packet is taken for the byte behind a start mark
    obtain ⟨rest, split⟩ : ∃ rest, packet.data = STX :: rest := by
      obtain ⟨_, rfl⟩ := WnPacket.ofBody_eq_some.mp built
      exact ⟨_, rfl⟩
    have lost : Parser.take { parser with unReadBytes := 1 } STX = some (parser, []) := by
      rw [take_flag rfl, takeFlag, if_neg (by decide)]
      exact congrArg (fun found => some (found, [])) same
    rw [split, feed_cons_of lost, Option.map_map, Option.map_eq_some_iff] at fed
    obtain ⟨⟨found, told⟩, fed, pair⟩ := fed
    cases pair
    have short := length_of_feed valid fed received
    rw [split, List.length_cons] at short
    omega

/-- Behind two start marks a packet is delivered. -/
theorem delivered_two_marks : Delivered Parser.initial
    [⟨[0x02], by decide, by decide⟩,
      ⟨[0x02, 0x02, 0x78, 8, 5, 0, 0, 0, 0, 1, 7, 0x03], by decide, by decide⟩]
    ⟨[0x02, 0x78, 8, 5, 0, 0, 0, 0, 1, 7, 0x03]⟩ :=
  (delivered_iff valid_initial.toTyped rfl (show Clean [0x02, 0x02] by decide)
    (show WnPacket.ofBody [7] 5 0 = some _ by decide) rfl).mpr (by decide)

/-- Behind one start mark it is not. -/
theorem not_delivered_one_mark : WnPacket.ofBody [7] 5 0 =
      some ⟨[0x02, 0x78, 8, 5, 0, 0, 0, 0, 1, 7, 0x03]⟩ ∧ Clean [0x02] ∧
    ¬ Delivered Parser.initial
      [⟨[0x02, 0x02, 0x78, 8, 5, 0, 0, 0, 0, 1, 7, 0x03], by decide, by decide⟩]
      ⟨[0x02, 0x78, 8, 5, 0, 0, 0, 0, 1, 7, 0x03]⟩ := by
  refine ⟨by decide, by decide, fun ⟨next, notices, receives, received⟩ => ?_⟩
  have fed : feed take Parser.initial (stream [⟨[0x02, 0x02, 0x78, 8, 5, 0, 0, 0, 0, 1, 7, 0x03],
      by decide, by decide⟩]) = some (Parser.initial, []) := by decide
  cases fed.symm.trans ((receives_iff valid_initial).mp receives)
  exact absurd received List.not_mem_nil

end Cube.Fndnet
