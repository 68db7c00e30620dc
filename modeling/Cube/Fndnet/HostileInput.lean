import Cube.Fndnet.Segmentation

/-! # Hostile data

A call of `HandleInData` returns, with sums that do not wrap and copies that stay inside, as long
as no header announces a size that does not fit. With such a size the loop turns without reading,
from the next byte on.
-/

namespace Cube.Fndnet

open Scanner Cube.Fndnet.Parser

/-- Every call returns with the data read, no sum wraps, and every copy stays inside. -/
def Handled : Parser → List Chunk → Prop
  | _, [] => True
  | parser, chunk :: chunks =>
      ∃ call, Returns parser chunk.bytes call ∧ call.rest = [] ∧
        (∀ check ∈ call.checks, check.Fine) ∧ Handled call.parser chunks

namespace Parser

/-- Sizes that fit. The length of a packet is computed at the byte behind its header. -/
structure Fits (parser : Parser) (bytes : List UInt8) : Prop where
  length : ∀ size ∈ parser.announced bytes.dropLast, size < 2 ^ 32 - 10
  allocation : ∀ size ∈ parser.announced bytes, size < 2 ^ 32 - 1

/-- The parser takes a stream, and is left with a size that can be allocated. -/
def Takes (parser : Parser) (bytes : List UInt8) : Prop :=
  ∃ next notices, feed take parser bytes = some (next, notices) ∧
    (next.Stuck → next.unBodySize + 1 < 2 ^ 32)

variable {parser : Parser}

theorem announced_cons (byte : UInt8) (bytes : List UInt8) {next : Parser} {notices : List Notice}
    (taken : parser.take byte = some (next, notices)) : parser.announced (byte :: bytes) =
      (parser.announces byte).toList ++ next.announced bytes := by
  rw [announced, taken, Option.elim_some]

theorem feed_of_stuck {bytes : List UInt8} (stuck : parser.Stuck) (some_byte : bytes ≠ []) :
    feed take parser bytes = none := by
  obtain ⟨byte, rest, rfl⟩ := List.exists_cons_of_ne_nil some_byte
  rw [feed_cons, take_stuck stuck]
  rfl

variable {byte : UInt8} {next : Parser} {notices : List Notice}

/-- A size that is announced is that of the next parser. -/
theorem size_of_announces (taken : parser.take byte = some (next, notices)) {size : Nat}
    (announces : size ∈ (parser.announces byte).toList) :
    next.unReadBytes = 9 ∧ next.unBodySize = size :=
  stuck_of_announces (Option.mem_toList.mp announces) taken

/-- A parser that is stuck behind the last byte has a size that can be allocated, or none that
fits. -/
theorem fits_singleton_iff (free : ¬ parser.Stuck)
    (taken : parser.take byte = some (next, notices)) (stuck : next.Stuck) :
    parser.Fits [byte] ↔ parser.Takes [byte] := by
  have fed : feed take parser [byte] = some (next, notices) := by
    rw [feed_singleton, taken]
  have listed := announced_cons byte [] taken
  have announced : next.unBodySize ∈ (parser.announces byte).toList :=
    Option.mem_toList.mpr (announces_of_take free taken stuck)
  constructor
  · intro fits
    have small := fits.allocation next.unBodySize (listed ▸ List.mem_append_left _ announced)
    exact ⟨next, notices, fed, fun _ => by omega⟩
  · intro ⟨last, told, same, small⟩
    cases fed.symm.trans same
    refine ⟨nofun, fun size member => ?_⟩
    rw [listed] at member
    rcases List.mem_append.mp member with here | later
    · have := small stuck
      have := (size_of_announces taken here).2
      omega
    · exact absurd later List.not_mem_nil

/-- A parser that is stuck takes no byte, and its size does not fit. -/
theorem fits_cons_iff_of_stuck (free : ¬ parser.Stuck)
    (taken : parser.take byte = some (next, notices)) (stuck : next.Stuck) (second : UInt8)
    (rest : List UInt8) :
    parser.Fits (byte :: second :: rest) ↔ parser.Takes (byte :: second :: rest) := by
  refine iff_of_false (fun fits => ?_) ?_
  · have small := fits.length next.unBodySize (by
      rw [List.dropLast_cons_cons, announced_cons byte _ taken]
      exact List.mem_append_left _ (Option.mem_toList.mpr (announces_of_take free taken stuck)))
    have := stuck.2
    omega
  · intro ⟨last, told, fed, _⟩
    rw [feed_cons_of taken, feed_of_stuck stuck (List.cons_ne_nil _ _)] at fed
    cases fed

theorem takes_cons_iff (taken : parser.take byte = some (next, notices)) (bytes : List UInt8) :
    parser.Takes (byte :: bytes) ↔ next.Takes bytes := by
  constructor
  · intro ⟨last, told, fed, fine⟩
    rw [feed_cons_of taken, Option.map_eq_some_iff] at fed
    obtain ⟨⟨found, later⟩, rest, same⟩ := fed
    cases same
    exact ⟨found, later, rest, fine⟩
  · intro ⟨last, later, fed, fine⟩
    exact ⟨last, notices ++ later, by rw [feed_cons_of taken, fed]; rfl, fine⟩

/-- A parser that goes on has announced no size, or one that fits. -/
theorem fits_cons_iff (taken : parser.take byte = some (next, notices)) (free : ¬ next.Stuck)
    (bytes : List UInt8) : parser.Fits (byte :: bytes) ↔ next.Fits bytes := by
  have small {size : Nat} (here : size ∈ (parser.announces byte).toList) :
      size + 10 < 2 ^ 32 := by
    obtain ⟨read, same⟩ := size_of_announces taken here
    refine Nat.lt_of_not_le fun wide => free ⟨Nat.le_of_eq read.symm, ?_⟩
    rw [same]
    exact wide
  have shorter : parser.announced (byte :: bytes).dropLast ⊆
        (parser.announces byte).toList ++ next.announced bytes.dropLast ∧
      next.announced bytes.dropLast ⊆ parser.announced (byte :: bytes).dropLast := by
    cases bytes with
    | nil => exact ⟨List.nil_subset _, List.nil_subset _⟩
    | cons second rest =>
        rw [List.dropLast_cons_cons, announced_cons byte _ taken]
        exact ⟨fun _ => id, List.subset_append_right _ _⟩
  constructor
  · intro fits
    refine ⟨fun size member => fits.length size (shorter.2 member), fun size member => ?_⟩
    exact fits.allocation size (announced_cons byte bytes taken ▸ List.mem_append_right _ member)
  · intro fits
    constructor
    · intro size member
      rcases List.mem_append.mp (shorter.1 member) with here | later
      · exact Nat.lt_sub_of_add_lt (small here)
      · exact fits.length size later
    · intro size member
      rw [announced_cons byte bytes taken] at member
      rcases List.mem_append.mp member with here | later
      · have := small here
        omega
      · exact fits.allocation size later

/-- Sizes that fit are those with which the parser takes a stream. -/
theorem fits_iff (bytes : List UInt8) (free : ¬ parser.Stuck) :
    parser.Fits bytes ↔ parser.Takes bytes := by
  induction bytes generalizing parser with
  | nil =>
      exact iff_of_true ⟨nofun, nofun⟩ ⟨parser, [], rfl, fun stuck => absurd stuck free⟩
  | cons byte bytes ih =>
      obtain ⟨⟨next, notices⟩, taken⟩ := exists_take free byte
      by_cases stuck : next.Stuck
      · cases bytes with
        | nil => exact fits_singleton_iff free taken stuck
        | cons second rest => exact fits_cons_iff_of_stuck free taken stuck second rest
      · rw [fits_cons_iff taken stuck, takes_cons_iff taken]
        exact ih stuck

end Parser

theorem stream_cons (chunk : Chunk) (chunks : List Chunk) :
    stream (chunk :: chunks) = chunk.bytes ++ stream chunks := rfl

theorem stream_eq_nil {chunks : List Chunk} (empty : stream chunks = []) : chunks = [] := by
  cases chunks with
  | nil => rfl
  | cons chunk chunks =>
      rw [stream_cons] at empty
      exact absurd (List.append_eq_nil_iff.mp empty).1 chunk.some_data

/-- Calls are handled where the parser takes the stream. -/
theorem handled_iff_takes {parser : Parser} {chunks : List Chunk} (valid : parser.Valid)
    (free : ¬ parser.Stuck) : Handled parser chunks ↔ parser.Takes (stream chunks) := by
  induction chunks generalizing parser with
  | nil => exact iff_of_true trivial ⟨parser, [], rfl, fun stuck => absurd stuck free⟩
  | cons chunk chunks ih =>
      rw [stream_cons]
      constructor
      · intro ⟨call, returns, _, fine, rest⟩
        obtain ⟨fed, _, checked⟩ := returns.finished valid chunk.some_data
        have validNext := feed_kept Valid (fun valid taken => valid_take valid taken) valid fed
        by_cases stuck : call.parser.Stuck
        · have last : chunks = [] := by
            cases chunks with
            | nil => rfl
            | cons second others =>
                obtain ⟨_, returned, _⟩ := rest
                have none := (returned.finished validNext second.some_data).1
                cases (feed_of_stuck stuck second.some_data).symm.trans none
          rw [last]
          refine ⟨call.parser, call.notices, ?_, fun _ => (checked.mp fine stuck).2⟩
          rw [feed_append_of fed]
          change (feed take call.parser []).map _ = _
          rw [feed_nil, Option.map_some, List.append_nil]
        · obtain ⟨next, notices, fedRest, small⟩ := (ih validNext stuck).mp rest
          exact ⟨next, call.notices ++ notices, by rw [feed_append_of fed, fedRest]; rfl, small⟩
      · intro ⟨next, notices, fed, small⟩
        cases first : feed take parser chunk.bytes with
        | none =>
            rw [feed_append, first] at fed
            cases fed
        | some front =>
            obtain ⟨middle, told⟩ := front
            rw [feed_append_of first, Option.map_eq_some_iff] at fed
            obtain ⟨⟨found, later⟩, fedRest, same⟩ := fed
            cases same
            obtain ⟨call, returns, rfl, rfl⟩ := (received_iff valid chunk.some_data).mpr first
            obtain ⟨_, rest, checked⟩ := returns.finished valid chunk.some_data
            have validNext := feed_kept Valid (fun valid taken => valid_take valid taken) valid first
            have last (stuck : call.parser.Stuck) : stream chunks = [] := by
              by_contra some_byte
              cases (feed_of_stuck stuck some_byte).symm.trans fedRest
            have harmless : Call.Harmless call := by
              intro stuck
              rw [last stuck, feed_nil] at fedRest
              cases fedRest
              exact ⟨rest, small stuck⟩
            refine ⟨call, returns, rest, checked.mpr harmless, ?_⟩
            by_cases stuck : call.parser.Stuck
            · rw [stream_eq_nil (last stuck)]
              trivial
            · exact (ih validNext stuck).mpr ⟨found, later, fedRest, small⟩

/-- **Every call is handled exactly for sizes that fit.** -/
theorem handled_iff (chunks : List Chunk) :
    Handled Parser.initial chunks ↔ Parser.initial.Fits (stream chunks) :=
  (handled_iff_takes valid_initial free_initial).trans (fits_iff _ free_initial).symm

/-- A header that announces the largest size, and a byte: the call does not return. -/
theorem largest_size_not_handled :
    (∀ fuel, handleInData fuel Parser.initial
      [0x02, 0x78, 8, 0, 0, 0xFF, 0xFF, 0xFF, 0xFF, 0] = none) ∧
    ¬ Handled Parser.initial
      [⟨[0x02, 0x78, 8, 0, 0, 0xFF, 0xFF, 0xFF, 0xFF, 0], by decide, by decide⟩] := by
  have stops : ∀ fuel, handleInData fuel Parser.initial
      [0x02, 0x78, 8, 0, 0, 0xFF, 0xFF, 0xFF, 0xFF, 0] = none :=
    fun fuel => handleInData_none valid_initial (by decide) (by decide)
  refine ⟨stops, fun ⟨call, ⟨fuel, returned⟩, _⟩ => ?_⟩
  cases (stops fuel).symm.trans returned

end Cube.Fndnet
