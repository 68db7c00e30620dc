import Cube.Fndnet.ConnBase

/-! # The parser byte by byte

`HandleInData` copies as much as it can at once. It does what a scanner does that takes a byte
at a time, and where the scanner is stuck, because the length of a packet does not fit a word,
the loop turns without end.
-/

namespace Cube.Fndnet

open Scanner

namespace Parser

/-! ## The scanner -/

/-- The byte behind a start mark. -/
def takeFlag (parser : Parser) (byte : UInt8) : Parser :=
  if byte = PACKET_START_FLAG then
    { parser with unReadBytes := 2, tHeader := parser.tHeader.set 0 PACKET_START_FLAG }
  else { parser with unReadBytes := 0 }

/-- The length of the packet does not fit a word. -/
def Stuck (parser : Parser) : Prop := 9 ≤ parser.unReadBytes ∧ 2 ^ 32 ≤ parser.unBodySize + 10

instance (parser : Parser) : Decidable parser.Stuck := inferInstanceAs (Decidable (_ ∧ _))

/-- A byte. -/
def take (parser : Parser) (byte : UInt8) : Option (Parser × List Notice) :=
  if parser.unReadBytes = 0 then
    some (if byte = STX then { parser with unReadBytes := 1 } else parser, [])
  else if parser.unReadBytes = 1 then some (parser.takeFlag byte, [])
  else if parser.unReadBytes < 9 then
    let copied := parser.copyHeader [byte]
    some (if copied.unReadBytes = 9 then copied.endHeader else (copied, []))
  else if parser.Stuck then none
  else
    let copied := parser.copyBody [byte]
    some (if copied.unReadBytes = parser.unBodySize + 10 then copied.endBody else (copied, []))

/-- The types of the members. -/
structure Typed (parser : Parser) : Prop where
  header : parser.tHeader.length = Header.size
  size : parser.unBodySize < 2 ^ 32

/-- What the parser keeps between two bytes. -/
structure Valid (parser : Parser) : Prop extends parser.Typed where
  body : 9 ≤ parser.unReadBytes → parser.pbBodyData.room = word (parser.unBodySize + 1) ∧
    parser.pbBodyData.bytes.length = parser.unReadBytes - 9 ∧
    parser.unReadBytes < parser.unBodySize + 10

variable {parser next : Parser} {byte : UInt8} {notices : List Notice}

theorem valid_initial : initial.Valid := ⟨⟨rfl, by decide⟩, fun read => absurd read (by decide)⟩

/-- A parser that looks for a start mark has no body. -/
theorem Typed.valid (typed : parser.Typed) (idle : parser.unReadBytes = 0) : parser.Valid :=
  ⟨typed, fun read => by omega⟩

theorem take_search (idle : parser.unReadBytes = 0) : parser.take byte =
    some (if byte = STX then { parser with unReadBytes := 1 } else parser, []) := by
  rw [take, if_pos idle]

theorem take_flag (marked : parser.unReadBytes = 1) :
    parser.take byte = some (parser.takeFlag byte, []) := by
  rw [take, if_neg (by omega), if_pos marked]

theorem take_header (first : 2 ≤ parser.unReadBytes) (last : parser.unReadBytes < 9) :
    parser.take byte = some (if parser.unReadBytes + 1 = 9 then (parser.copyHeader [byte]).endHeader
      else (parser.copyHeader [byte], [])) := by
  rw [take, if_neg (by omega), if_neg (by omega), if_pos last]
  rfl

theorem take_body (read : 9 ≤ parser.unReadBytes) (free : ¬ parser.Stuck) :
    parser.take byte = some (if parser.unReadBytes + 1 = parser.unBodySize + 10 then
      (parser.copyBody [byte]).endBody else (parser.copyBody [byte], [])) := by
  rw [take, if_neg (by omega), if_neg (by omega), if_neg (by omega), if_neg free]
  rfl

theorem take_stuck (stuck : parser.Stuck) : parser.take byte = none := by
  obtain ⟨read, _⟩ := id stuck
  rw [take, if_neg (by omega), if_neg (by omega), if_neg (by omega), if_pos stuck]

/-! ## What a byte keeps -/

theorem typed_copyHeader (typed : parser.Typed) {bytes : List UInt8}
    (inside : parser.unReadBytes - 1 + bytes.length ≤ 8) : (parser.copyHeader bytes).Typed :=
  ⟨(Buffer.length_overwrite (by rw [typed.header]; exact inside)).trans typed.header, typed.size⟩

theorem valid_endHeader (typed : parser.Typed) (complete : parser.unReadBytes = 9) :
    parser.endHeader.1.Valid := by
  rw [endHeader]
  by_cases bad : parser.BadHeader
  · rw [if_pos bad]
    exact Typed.valid ⟨typed.header, typed.size⟩ rfl
  · rw [if_neg bad]
    refine ⟨⟨typed.header, streamToInteger_lt _⟩, fun _ => ⟨rfl, ?_, ?_⟩⟩
    · change 0 = parser.unReadBytes - 9
      omega
    · change parser.unReadBytes < _
      omega

theorem valid_copyBody (valid : parser.Valid) (read : 9 ≤ parser.unReadBytes) {bytes : List UInt8}
    (inside : parser.unReadBytes + bytes.length < parser.unBodySize + 10) :
    (parser.copyBody bytes).Valid := by
  obtain ⟨room, length, _⟩ := valid.body read
  refine ⟨⟨valid.header, valid.size⟩, fun _ => ⟨room, ?_, inside⟩⟩
  change (Buffer.overwrite parser.pbBodyData.bytes (parser.unReadBytes - 1 - 8) bytes).length =
    parser.unReadBytes + bytes.length - 9
  have place : parser.unReadBytes - 1 - 8 = parser.pbBodyData.bytes.length := by omega
  rw [Buffer.overwrite, place, List.take_length, List.drop_eq_nil_of_le (Nat.le_add_right _ _),
    List.append_nil, List.length_append, length]
  omega

/-- What a byte does. -/
inductive Taken (parser : Parser) (byte : UInt8) : Parser → List Notice → Prop
  | skipped (idle : parser.unReadBytes = 0) (other : byte ≠ STX) : Taken parser byte parser []
  | marked (idle : parser.unReadBytes = 0) (mark : byte = STX) :
      Taken parser byte { parser with unReadBytes := 1 } []
  | flagged (marked : parser.unReadBytes = 1) (flag : byte = PACKET_START_FLAG) :
      Taken parser byte
        { parser with unReadBytes := 2, tHeader := parser.tHeader.set 0 PACKET_START_FLAG } []
  | unflagged (marked : parser.unReadBytes = 1) (other : byte ≠ PACKET_START_FLAG) :
      Taken parser byte { parser with unReadBytes := 0 } []
  | header (first : 2 ≤ parser.unReadBytes) (open_end : parser.unReadBytes + 1 < 9) :
      Taken parser byte (parser.copyHeader [byte]) []
  | badHeader (complete : parser.unReadBytes + 1 = 9) (bad : (parser.copyHeader [byte]).BadHeader) :
      Taken parser byte { parser.copyHeader [byte] with unReadBytes := 0 } [.dataError]
  | announced (complete : parser.unReadBytes + 1 = 9)
      (good : ¬ (parser.copyHeader [byte]).BadHeader) :
      Taken parser byte (parser.copyHeader [byte]).allocate []
  | body (read : 9 ≤ parser.unReadBytes) (free : ¬ parser.Stuck)
      (open_end : parser.unReadBytes + 1 ≠ parser.unBodySize + 10) :
      Taken parser byte (parser.copyBody [byte]) []
  | badBody (read : 9 ≤ parser.unReadBytes) :
      Taken parser byte { parser.copyBody [byte] with unReadBytes := 0, pbBodyData := .null }
        [.dataError]
  | received (read : 9 ≤ parser.unReadBytes)
      (complete : parser.unReadBytes + 1 = parser.unBodySize + 10) :
      Taken parser byte initial [.receiveData (.ofReceived parser.tHeader
        ((parser.copyBody [byte]).pbBodyData.bytes.take parser.unBodySize))]

theorem taken_of_take (taken : parser.take byte = some (next, notices)) :
    Taken parser byte next notices := by
  by_cases idle : parser.unReadBytes = 0
  · rw [take_search idle] at taken
    by_cases mark : byte = STX
    · rw [if_pos mark] at taken
      cases taken
      exact .marked idle mark
    · rw [if_neg mark] at taken
      cases taken
      exact .skipped idle mark
  by_cases marked : parser.unReadBytes = 1
  · rw [take_flag marked, takeFlag] at taken
    by_cases flag : byte = PACKET_START_FLAG
    · rw [if_pos flag] at taken
      cases taken
      exact .flagged marked flag
    · rw [if_neg flag] at taken
      cases taken
      exact .unflagged marked flag
  by_cases header : parser.unReadBytes < 9
  · rw [take_header (by omega) header] at taken
    by_cases complete : parser.unReadBytes + 1 = 9
    · rw [if_pos complete, endHeader] at taken
      by_cases bad : (parser.copyHeader [byte]).BadHeader
      · rw [if_pos bad] at taken
        cases taken
        exact .badHeader complete bad
      · rw [if_neg bad] at taken
        cases taken
        exact .announced complete bad
    · rw [if_neg complete] at taken
      cases taken
      exact .header (by omega) (by omega)
  by_cases stuck : parser.Stuck
  · rw [take_stuck stuck] at taken
    cases taken
  · rw [take_body (by omega) stuck] at taken
    by_cases complete : parser.unReadBytes + 1 = parser.unBodySize + 10
    · rw [if_pos complete, endBody] at taken
      by_cases bad : (parser.copyBody [byte]).pbBodyData.bytes.getD
          (parser.copyBody [byte]).unBodySize 0 ≠ ETX
      · rw [if_pos bad] at taken
        cases taken
        exact .badBody (by omega)
      · rw [if_neg bad] at taken
        cases taken
        exact .received (by omega) complete
    · rw [if_neg complete] at taken
      cases taken
      exact .body (by omega) stuck complete

/-- A byte keeps the parser valid. -/
theorem valid_take (valid : parser.Valid) (taken : parser.take byte = some (next, notices)) :
    next.Valid := by
  have typed := valid.toTyped
  cases taken_of_take taken with
  | skipped => exact valid
  | marked => exact ⟨⟨typed.header, typed.size⟩, fun read => absurd read (show ¬ 9 ≤ 1 by decide)⟩
  | flagged =>
      exact ⟨⟨by rw [List.length_set]; exact typed.header, typed.size⟩,
        fun read => absurd read (show ¬ 9 ≤ 2 by decide)⟩
  | unflagged => exact Typed.valid ⟨typed.header, typed.size⟩ rfl
  | header first open_end =>
      refine ⟨typed_copyHeader typed (by rw [List.length_singleton]; omega), fun read => ?_⟩
      change 9 ≤ parser.unReadBytes + 1 at read
      omega
  | badHeader complete =>
      have copied : (parser.copyHeader [byte]).Typed :=
        typed_copyHeader typed (by rw [List.length_singleton]; omega)
      exact Typed.valid ⟨copied.header, copied.size⟩ rfl
  | announced complete =>
      have copied : (parser.copyHeader [byte]).Typed :=
        typed_copyHeader typed (by rw [List.length_singleton]; omega)
      refine ⟨⟨copied.header, streamToInteger_lt _⟩, fun _ => ⟨rfl, ?_, ?_⟩⟩
      · change 0 = parser.unReadBytes + 1 - 9
        omega
      · change parser.unReadBytes + 1 < _
        omega
  | body read _ open_end =>
      obtain ⟨_, _, inside⟩ := valid.body read
      exact valid_copyBody valid read (by rw [List.length_singleton]; omega)
  | badBody => exact Typed.valid ⟨typed.header, typed.size⟩ rfl
  | received => exact valid_initial

/-! ## Copies -/

theorem copyHeader_append (typed : parser.Typed) (read : 1 ≤ parser.unReadBytes)
    (inside : parser.unReadBytes ≤ 9) (first second : List UInt8) :
    parser.copyHeader (first ++ second) = (parser.copyHeader first).copyHeader second := by
  have place : parser.unReadBytes - 1 + first.length = parser.unReadBytes + first.length - 1 := by
    omega
  have within : parser.unReadBytes - 1 ≤ parser.tHeader.length := by
    rw [typed.header, Header.size]
    omega
  simp only [copyHeader, Buffer.overwrite_append within, place, List.length_append, Nat.add_assoc]

theorem copyBody_append (valid : parser.Valid) (read : 9 ≤ parser.unReadBytes)
    (first second : List UInt8) :
    parser.copyBody (first ++ second) = (parser.copyBody first).copyBody second := by
  obtain ⟨_, length, _⟩ := valid.body read
  have place : parser.unReadBytes - 1 - 8 + first.length =
      parser.unReadBytes + first.length - 1 - 8 := by
    omega
  have within : parser.unReadBytes - 1 - 8 ≤ parser.pbBodyData.bytes.length := by omega
  simp only [copyBody, Buffer.overwrite_append within, place, List.length_append, Nat.add_assoc]

theorem copyHeader_nil : parser.copyHeader [] = parser := by
  simp [copyHeader]

theorem copyBody_nil : parser.copyBody [] = parser := by
  simp [copyBody]

/-- Bytes that do not complete the header. -/
theorem feed_copyHeader (typed : parser.Typed) (first : 2 ≤ parser.unReadBytes)
    {bytes : List UInt8} (inside : parser.unReadBytes + bytes.length < 9) :
    feed take parser bytes = some (parser.copyHeader bytes, []) := by
  induction bytes generalizing parser with
  | nil => rw [feed_nil, copyHeader_nil]
  | cons byte bytes ih =>
      rw [List.length_cons] at inside
      have taken : parser.take byte = some (parser.copyHeader [byte], []) := by
        rw [take_header first (by omega), if_neg (by omega)]
      have typedNext : (parser.copyHeader [byte]).Typed :=
        typed_copyHeader typed (by rw [List.length_singleton]; omega)
      have read : (parser.copyHeader [byte]).unReadBytes = parser.unReadBytes + 1 := rfl
      rw [feed_cons_quiet taken, ih typedNext (by omega) (by omega),
        ← copyHeader_append typed (by omega) (by omega)]
      rfl

/-- Bytes that complete the header. -/
theorem feed_endHeader (typed : parser.Typed) (first : 2 ≤ parser.unReadBytes)
    {bytes : List UInt8} (some_byte : bytes ≠ []) (complete : parser.unReadBytes + bytes.length = 9) :
    feed take parser bytes = some (parser.copyHeader bytes).endHeader := by
  obtain ⟨front, last, rfl⟩ := List.eq_nil_or_concat bytes |>.resolve_left some_byte
  rw [List.concat_eq_append] at complete ⊢
  rw [List.length_append, List.length_singleton] at complete
  have read : (parser.copyHeader front).unReadBytes = parser.unReadBytes + front.length := rfl
  rw [feed_append_quiet (feed_copyHeader typed first (by omega)), feed_singleton,
    take_header (by omega) (by omega), if_pos (by omega), copyHeader_append typed (by omega) (by omega)]

/-- Bytes that do not complete the body. -/
theorem feed_copyBody (valid : parser.Valid) (read : 9 ≤ parser.unReadBytes)
    (free : ¬ parser.Stuck) {bytes : List UInt8}
    (inside : parser.unReadBytes + bytes.length < parser.unBodySize + 10) :
    feed take parser bytes = some (parser.copyBody bytes, []) := by
  induction bytes generalizing parser with
  | nil => rw [feed_nil, copyBody_nil]
  | cons byte bytes ih =>
      rw [List.length_cons] at inside
      have taken : parser.take byte = some (parser.copyBody [byte], []) := by
        rw [take_body read free, if_neg (by omega)]
      have validNext : (parser.copyBody [byte]).Valid :=
        valid_copyBody valid read (by rw [List.length_singleton]; omega)
      have readNext : (parser.copyBody [byte]).unReadBytes = parser.unReadBytes + 1 := rfl
      have size : (parser.copyBody [byte]).unBodySize = parser.unBodySize := rfl
      have freeNext : ¬ (parser.copyBody [byte]).Stuck := fun ⟨_, wide⟩ => free ⟨read, wide⟩
      rw [feed_cons_quiet taken, ih validNext (by omega) freeNext (by omega),
        ← copyBody_append valid read]
      rfl

/-- Bytes that complete the body. -/
theorem feed_endBody (valid : parser.Valid) (read : 9 ≤ parser.unReadBytes)
    (free : ¬ parser.Stuck) {bytes : List UInt8} (some_byte : bytes ≠ [])
    (complete : parser.unReadBytes + bytes.length = parser.unBodySize + 10) :
    feed take parser bytes = some (parser.copyBody bytes).endBody := by
  obtain ⟨front, last, rfl⟩ := List.eq_nil_or_concat bytes |>.resolve_left some_byte
  rw [List.concat_eq_append] at complete ⊢
  rw [List.length_append, List.length_singleton] at complete
  have readFront : (parser.copyBody front).unReadBytes = parser.unReadBytes + front.length := rfl
  have size : (parser.copyBody front).unBodySize = parser.unBodySize := rfl
  have freeFront : ¬ (parser.copyBody front).Stuck := fun ⟨_, wide⟩ => free ⟨read, wide⟩
  rw [feed_append_quiet (feed_copyBody valid read free (by omega)), feed_singleton,
    take_body (by omega) freeFront, if_pos (by omega), copyBody_append valid read]

end Parser

/-! ## A turn of the loop -/

open Cube.Fndnet.Parser

namespace Call

/-- A turn that breaks has read the data. -/
def Ends (turn : Turn) (after : Call) : Prop :=
  turn = .breaks after ∧ after.rest = [] ∨ turn = .tests after

/-- Between two points of a call the bytes in `front` were scanned. -/
structure Scanned (call after : Call) (front : List UInt8) : Prop where
  split : call.rest = front ++ after.rest
  fed : ∃ notices, feed take call.parser front = some (after.parser, notices) ∧
    after.notices = call.notices ++ notices

/-- An expected length that does not fit a word was not computed, nor a size that does not fit
with the end mark. -/
def Harmless (call : Call) : Prop :=
  call.parser.Stuck → call.rest = [] ∧ call.parser.unBodySize + 1 < 2 ^ 32

/-- What a turn does, from any point of it on. -/
structure Turned (call : Call) (turn : Turn) (after : Call) (front : List UInt8) : Prop where
  ends : Ends turn after
  scanned : Scanned call after front
  checked : ∃ made, after.checks = call.checks ++ made ∧
    ((∀ check ∈ made, check.Fine) ↔ Harmless after)

variable {call : Call}

theorem Scanned.refl (call : Call) (checks : List Check) :
    Scanned call { call with checks } [] :=
  ⟨rfl, [], rfl, (List.append_nil _).symm⟩

/-- A part that is complete was scanned with its notices. -/
theorem Scanned.ended {copied : Call} {front : List UInt8} (split : call.rest = front ++ copied.rest)
    (notices : copied.notices = call.notices) {part : Parser × List Notice}
    (fed : feed take call.parser front = some part) (checks : List Check) :
    Scanned call { copied.ended part with checks } front := by
  obtain ⟨parser, made⟩ := part
  refine ⟨split, made, fed, ?_⟩
  rw [← notices]
  rfl

theorem Scanned.trans {middle after : Call} {front back : List UInt8}
    (first : Scanned call middle front) (second : Scanned middle after back) :
    Scanned call after (front ++ back) := by
  obtain ⟨notices, fed, told⟩ := first.fed
  obtain ⟨later, fedLater, toldLater⟩ := second.fed
  refine ⟨by rw [first.split, second.split, List.append_assoc], notices ++ later, ?_, ?_⟩
  · rw [feed_append_of fed, fedLater]
    rfl
  · rw [toldLater, told, List.append_assoc]

/-- The search reads the bytes up to a start mark, or all of them. -/
theorem findSTX_scanned {parser : Parser} (idle : parser.unReadBytes = 0) (rest : List UInt8) :
    ∃ front, rest = front ++ (findSTX parser rest).2 ∧
      feed take parser front = some ((findSTX parser rest).1, []) ∧
      (rest ≠ [] → front ≠ []) ∧ (findSTX parser rest).1.unReadBytes ≤ 1 ∧
      ((findSTX parser rest).2 ≠ [] → (findSTX parser rest).1.unReadBytes ≠ 0) := by
  induction rest with
  | nil =>
      refine ⟨[], rfl, rfl, fun some_byte => absurd rfl some_byte, ?_, fun left => absurd rfl left⟩
      exact (Nat.le_of_eq idle).trans (Nat.zero_le 1)
  | cons byte rest ih =>
      rw [findSTX]
      by_cases mark : byte = STX
      · rw [if_pos mark]
        refine ⟨[byte], rfl, ?_, fun _ => List.cons_ne_nil _ _, Nat.le_refl 1,
          fun _ => Nat.one_ne_zero⟩
        rw [feed_singleton, take_search idle, if_pos mark]
      · rw [if_neg mark]
        obtain ⟨front, split, fed, _, few, left⟩ := ih
        have skipped : parser.take byte = some (parser, []) := by
          rw [take_search idle, if_neg mark]
        refine ⟨byte :: front, congrArg (byte :: ·) split, ?_, fun _ => List.cons_ne_nil _ _,
          few, left⟩
        rw [feed_cons_of skipped, fed]
        rfl

theorem search_scanned (free : ¬ call.parser.Stuck) : ∃ front, Scanned call call.search front ∧
    call.search.checks = call.checks ∧ ¬ call.search.parser.Stuck ∧
    (call.search.rest ≠ [] → call.search.parser.unReadBytes ≠ 0) ∧
    (call.rest ≠ [] → front ≠ [] ∨ call.search.rest ≠ []) := by
  rw [search]
  by_cases idle : call.parser.unReadBytes = 0
  · rw [if_pos idle]
    obtain ⟨front, split, fed, some_byte, few, left⟩ := findSTX_scanned idle call.rest
    refine ⟨front, ⟨split, [], fed, (List.append_nil _).symm⟩, rfl, ?_, left,
      fun data => .inl (some_byte data)⟩
    exact fun ⟨read, _⟩ => absurd (Nat.le_trans read few) (by decide)
  · rw [if_neg idle]
    exact ⟨[], Scanned.refl call call.checks, rfl, free, fun _ => idle, fun data => .inr data⟩

/-- A turn goes on from a point where all checks were fine. -/
theorem Turned.after {middle after : Call} {turn : Turn} {front back : List UInt8}
    (first : Scanned call middle front) {made : List Check}
    (checks : middle.checks = call.checks ++ made) (fine : ∀ check ∈ made, check.Fine)
    (second : Turned middle turn after back) : Turned call turn after (front ++ back) := by
  obtain ⟨later, checksLater, fineLater⟩ := second.checked
  refine ⟨second.ends, first.trans second.scanned, made ++ later, ?_, ?_⟩
  · rw [checksLater, checks, List.append_assoc]
  · rw [← fineLater, List.forall_mem_append]
    exact and_iff_right fine

theorem harmless_of_free (free : ¬ call.parser.Stuck) : Call.Harmless call :=
  fun stuck => absurd stuck free

/-- The bytes that are copied into the body. -/
def bodyBytes (call : Call) : List UInt8 :=
  call.rest.take (min call.rest.length (call.parser.unBodySize + 10 - call.parser.unReadBytes))

/-- The copy of the body's bytes, where the length of the packet fits. -/
def copiedBody (call : Call) : Call :=
  let unCopyLen := min call.rest.length (call.parser.unBodySize + 10 - call.parser.unReadBytes)
  { call with
    parser := call.parser.copyBody call.bodyBytes
    rest := call.rest.drop unCopyLen
    checks := call.checks ++ [.sum [1, 8, call.parser.unBodySize, 1],
      .copy (call.parser.unReadBytes - 1 - 8) unCopyLen call.parser.pbBodyData.room] }

/-- The end of the copied body, with its end mark. -/
def endedBody (call : Call) : Call :=
  { call.copiedBody.ended call.copiedBody.parser.endBody with
    checks := call.copiedBody.checks ++
      [.copy call.parser.unBodySize 1 call.parser.pbBodyData.room] }

theorem readBody_copied (some_byte : call.rest ≠ [])
    (inside : call.parser.unReadBytes < call.parser.unBodySize + 10)
    (size : call.parser.unBodySize + 10 < 2 ^ 32) :
    call.readBody =
      if call.copiedBody.parser.unReadBytes = call.parser.unBodySize + 10 then
        .tests call.endedBody
      else .tests call.copiedBody := by
  have checkLen : word (1 + 8 + call.parser.unBodySize + 1) = call.parser.unBodySize + 10 := by
    rw [word_of_lt (by omega)]
    omega
  rw [readBody, if_neg some_byte, endedBody, copiedBody]
  simp only [checkLen, if_pos inside, List.append_assoc, bodyBytes]
  rfl

theorem unReadBytes_endBody (parser : Parser) : parser.endBody.1.unReadBytes = 0 := by
  rw [endBody]
  by_cases bad : parser.pbBodyData.bytes.getD parser.unBodySize 0 ≠ ETX
  · rw [if_pos bad]
  · rw [if_neg bad]

/-- From the body on, where the expected length fits. -/
theorem readBody_free (valid : call.parser.Valid) (read : 9 ≤ call.parser.unReadBytes)
    (free : ¬ call.parser.Stuck) : ∃ after front, Turned call call.readBody after front ∧
      (call.rest ≠ [] → front ≠ []) := by
  by_cases empty : call.rest = []
  · rw [readBody, if_pos empty]
    exact ⟨call, [], ⟨.inl ⟨rfl, empty⟩, Scanned.refl call call.checks, [],
      (List.append_nil _).symm, iff_of_true nofun (harmless_of_free free)⟩,
      fun some_byte => absurd empty some_byte⟩
  · obtain ⟨room, length, inside⟩ := valid.body read
    have size : call.parser.unBodySize + 10 < 2 ^ 32 :=
      Nat.lt_of_not_le fun wide => free ⟨read, wide⟩
    have expected : (Check.sum [1, 8, call.parser.unBodySize, 1]).Fine := by
      simp only [Check.Fine, List.sum_cons, List.sum_nil]
      omega
    have roomy : call.parser.pbBodyData.room = call.parser.unBodySize + 1 := by
      rw [room, word_of_lt (by omega)]
    have some_data := List.length_pos_of_ne_nil empty
    have taken : call.bodyBytes.length =
        min call.rest.length (call.parser.unBodySize + 10 - call.parser.unReadBytes) := by
      rw [bodyBytes, List.length_take]
      omega
    have some_byte : call.bodyBytes ≠ [] := List.length_pos_iff.mp (by omega)
    have split : call.rest = call.bodyBytes ++ call.copiedBody.rest :=
      (List.take_append_drop _ _).symm
    have copied : (Check.copy (call.parser.unReadBytes - 1 - 8)
        (min call.rest.length (call.parser.unBodySize + 10 - call.parser.unReadBytes))
        call.parser.pbBodyData.room).Fine := by
      change _ + _ ≤ _
      omega
    have total : call.copiedBody.parser.unReadBytes =
      call.parser.unReadBytes + call.bodyBytes.length := rfl
    rw [readBody_copied empty inside size]
    by_cases complete : call.copiedBody.parser.unReadBytes = call.parser.unBodySize + 10
    · have fed : feed take call.parser call.bodyBytes = some call.copiedBody.parser.endBody :=
        feed_endBody valid read free some_byte complete
      have endMark : (Check.copy call.parser.unBodySize 1 call.parser.pbBodyData.room).Fine :=
        Nat.le_of_eq roomy.symm
      have scanned : Scanned call call.endedBody call.bodyBytes := Scanned.ended split rfl fed _
      rw [if_pos complete]
      refine ⟨call.endedBody, call.bodyBytes, ⟨.inr rfl, scanned, _, List.append_assoc _ _ _, ?_⟩,
        fun _ => some_byte⟩
      refine iff_of_true ?_ (harmless_of_free fun ⟨busy, _⟩ => ?_)
      · simp only [List.cons_append, List.nil_append, List.forall_mem_cons]
        exact ⟨expected, copied, endMark, nofun⟩
      · exact absurd (busy.trans_eq (unReadBytes_endBody _)) (by decide)
    · have fed : feed take call.parser call.bodyBytes = some (call.copiedBody.parser, []) :=
        feed_copyBody valid read free (by omega)
      rw [if_neg complete]
      refine ⟨call.copiedBody, call.bodyBytes, ⟨.inr rfl, ⟨split, [], fed,
        (List.append_nil _).symm⟩, _, rfl, ?_⟩, fun _ => some_byte⟩
      refine iff_of_true ?_ (harmless_of_free fun ⟨_, wide⟩ => free ⟨read, wide⟩)
      simp only [List.forall_mem_cons]
      exact ⟨expected, copied, nofun⟩

/-- From the body on, where the expected length does not fit: no byte is read. -/
theorem readBody_stuck (valid : call.parser.Valid) (stuck : call.parser.Stuck)
    (some_byte : call.rest ≠ []) : call.readBody = .tests { call with
      checks := call.checks ++ [.sum [1, 8, call.parser.unBodySize, 1]] } := by
  obtain ⟨read, wide⟩ := stuck
  have size := valid.size
  have wrapped : ¬ call.parser.unReadBytes < word (1 + 8 + call.parser.unBodySize + 1) := by
    rw [word]
    omega
  rw [readBody, if_neg some_byte]
  simp only [if_neg wrapped]

theorem not_fine_of_stuck (stuck : call.parser.Stuck) :
    ¬ (Check.sum [1, 8, call.parser.unBodySize, 1]).Fine := by
  obtain ⟨_, wide⟩ := stuck
  simp only [Check.Fine, List.sum_cons, List.sum_nil]
  omega

/-- The copy of the header's bytes. -/
def copiedHeader (call : Call) : Call :=
  let unCopyLen := min call.rest.length (9 - call.parser.unReadBytes)
  { call with
    parser := call.parser.copyHeader (call.rest.take unCopyLen)
    rest := call.rest.drop unCopyLen
    checks := call.checks ++ [.copy (call.parser.unReadBytes - 1) unCopyLen Header.size] }

/-- The memory that is allocated once a header is complete. -/
def allocated (call : Call) : Call :=
  { call with
    parser := call.parser.allocate
    checks := call.checks ++ [.sum [call.parser.allocate.unBodySize, 1]] }

theorem readHeader_empty (empty : call.rest = []) : call.readHeader = .breaks call := by
  rw [readHeader, if_pos empty]

theorem readHeader_body (some_byte : call.rest ≠ []) (read : 9 ≤ call.parser.unReadBytes) :
    call.readHeader = call.readBody := by
  rw [readHeader, if_neg some_byte]
  exact if_neg (Nat.not_lt.mpr read)

theorem readHeader_copied (some_byte : call.rest ≠ []) (read : call.parser.unReadBytes < 9) :
    call.readHeader =
      if call.copiedHeader.parser.unReadBytes = 9 then
        if call.copiedHeader.parser.BadHeader then
          .tests (call.copiedHeader.ended call.copiedHeader.parser.endHeader)
        else readBody call.copiedHeader.allocated
      else readBody call.copiedHeader := by
  rw [readHeader, if_neg some_byte]
  simp only [if_pos (show call.parser.unReadBytes < 1 + 8 from read)]
  by_cases complete : call.copiedHeader.parser.unReadBytes = 9
  · by_cases bad : call.copiedHeader.parser.BadHeader
    · rw [if_pos complete, if_pos bad]
      exact (if_pos complete).trans (if_pos bad)
    · rw [if_pos complete, if_neg bad]
      refine (if_pos complete).trans ((if_neg bad).trans ?_)
      have ended : call.copiedHeader.parser.endHeader = (call.copiedHeader.parser.allocate, []) := by
        rw [endHeader, if_neg bad]
      change readBody { call.copiedHeader.ended call.copiedHeader.parser.endHeader with
        checks := call.copiedHeader.checks ++ [.sum [(call.copiedHeader.ended
          call.copiedHeader.parser.endHeader).parser.unBodySize, 1]] } = _
      rw [ended, Call.ended, List.append_nil]
      rfl
  · rw [if_neg complete]
    exact if_neg complete

/-- The turn after the allocation of a body whose packet does not fit a word. -/
theorem allocated_turned {middle : Call} {front : List UInt8} {copied : Check}
    (valid : middle.parser.Valid) (stuck : middle.parser.Stuck)
    (scanned : Scanned call middle front)
    (checks : middle.checks = call.checks ++ [copied, .sum [middle.parser.unBodySize, 1]])
    (fine : copied.Fine) : ∃ after, Turned call middle.readBody after front := by
  by_cases empty : middle.rest = []
  · rw [readBody, if_pos empty]
    refine ⟨middle, .inl ⟨rfl, empty⟩, scanned, _, checks, ?_⟩
    have size : (Check.sum [middle.parser.unBodySize, 1]).Fine ↔
        middle.parser.unBodySize + 1 < 2 ^ 32 := by
      simp only [Check.Fine, List.sum_cons, List.sum_nil, Nat.add_zero]
    rw [List.forall_mem_cons, List.forall_mem_singleton, size]
    exact ⟨fun ⟨_, small⟩ _ => ⟨empty, small⟩, fun harmless => ⟨fine, (harmless stuck).2⟩⟩
  · rw [readBody_stuck valid stuck empty]
    have told := scanned.trans (Scanned.refl middle
      (middle.checks ++ [.sum [1, 8, middle.parser.unBodySize, 1]]))
    rw [List.append_nil] at told
    refine ⟨_, .inr rfl, told, _, by rw [checks, List.append_assoc], iff_of_false ?_ ?_⟩
    · intro all
      exact not_fine_of_stuck stuck (all _ (by simp))
    · intro harmless
      exact empty (harmless stuck).1

/-- The bytes that are copied into the header. -/
def headerBytes (call : Call) : List UInt8 :=
  call.rest.take (min call.rest.length (9 - call.parser.unReadBytes))

/-- Bytes are copied into the header, up to its end or to the end of the data. -/
structure Copies (call : Call) : Prop where
  some_byte : call.headerBytes ≠ []
  split : call.rest = call.headerBytes ++ call.copiedHeader.rest
  read : call.parser.unReadBytes + call.headerBytes.length ≤ 9
  last : call.parser.unReadBytes + call.headerBytes.length < 9 → call.copiedHeader.rest = []
  fine : (Check.copy (call.parser.unReadBytes - 1)
    (min call.rest.length (9 - call.parser.unReadBytes)) Header.size).Fine
  typed : call.copiedHeader.parser.Typed

theorem copies (typed : call.parser.Typed) (first : 2 ≤ call.parser.unReadBytes)
    (header : call.parser.unReadBytes < 9) (some_data : call.rest ≠ []) : call.Copies := by
  have some_length := List.length_pos_of_ne_nil some_data
  have length : call.headerBytes.length =
      min call.rest.length (9 - call.parser.unReadBytes) := by
    rw [headerBytes, List.length_take]
    omega
  have inside : call.parser.unReadBytes - 1 + call.headerBytes.length ≤ 8 := by omega
  refine ⟨?_, (List.take_append_drop _ _).symm, by omega, fun short => ?_, ?_, ?_⟩
  · exact List.length_pos_iff.mp (by omega)
  · exact List.drop_eq_nil_of_le (by omega)
  · rw [length] at inside
    exact inside
  · exact typed_copyHeader typed inside

/-- The data ends inside of the header. -/
theorem Copies.incomplete_turned (copies : call.Copies) (typed : call.parser.Typed)
    (first : 2 ≤ call.parser.unReadBytes)
    (incomplete : call.copiedHeader.parser.unReadBytes ≠ 9) :
    Turned call call.copiedHeader.readBody call.copiedHeader call.headerBytes := by
  have total : call.copiedHeader.parser.unReadBytes =
    call.parser.unReadBytes + call.headerBytes.length := rfl
  have read := copies.read
  have short : call.parser.unReadBytes + call.headerBytes.length < 9 := by omega
  have empty := copies.last short
  have fed : feed take call.parser call.headerBytes = some (call.copiedHeader.parser, []) :=
    feed_copyHeader typed first short
  rw [readBody, if_pos empty]
  refine ⟨.inl ⟨rfl, empty⟩, ⟨copies.split, [], fed, (List.append_nil _).symm⟩, [_], rfl, ?_⟩
  refine iff_of_true ?_ (harmless_of_free fun ⟨busy, _⟩ => ?_)
  · simp only [List.forall_mem_cons]
    exact ⟨copies.fine, nofun⟩
  · omega

/-- A header whose length is wrong. -/
theorem Copies.bad_turned (copies : call.Copies) (typed : call.parser.Typed)
    (first : 2 ≤ call.parser.unReadBytes) (complete : call.copiedHeader.parser.unReadBytes = 9)
    (bad : call.copiedHeader.parser.BadHeader) :
    Turned call (.tests (call.copiedHeader.ended call.copiedHeader.parser.endHeader))
      (call.copiedHeader.ended call.copiedHeader.parser.endHeader) call.headerBytes := by
  have fed : feed take call.parser call.headerBytes = some call.copiedHeader.parser.endHeader :=
    feed_endHeader typed first copies.some_byte complete
  refine ⟨.inr rfl, Scanned.ended copies.split rfl fed _, [_], rfl, ?_⟩
  refine iff_of_true ?_ (harmless_of_free fun ⟨busy, _⟩ => ?_)
  · simp only [List.forall_mem_cons]
    exact ⟨copies.fine, nofun⟩
  · have idle : call.copiedHeader.parser.endHeader.1.unReadBytes = 0 := by
      rw [endHeader, if_pos bad]
    exact absurd (busy.trans_eq idle) (by decide)

/-- A header whose length is right, and what is there of the body. -/
theorem Copies.complete_turned (copies : call.Copies) (typed : call.parser.Typed)
    (first : 2 ≤ call.parser.unReadBytes) (complete : call.copiedHeader.parser.unReadBytes = 9)
    (good : ¬ call.copiedHeader.parser.BadHeader) :
    ∃ after back, Turned call call.copiedHeader.allocated.readBody after
      (call.headerBytes ++ back) := by
  have ended : call.copiedHeader.parser.endHeader = (call.copiedHeader.parser.allocate, []) := by
    rw [endHeader, if_neg good]
  have fed : feed take call.parser call.headerBytes = some call.copiedHeader.parser.endHeader :=
    feed_endHeader typed first copies.some_byte complete
  have scanned : Scanned call call.copiedHeader.allocated call.headerBytes :=
    ⟨copies.split, [], fed.trans (congrArg some ended), (List.append_nil _).symm⟩
  have validNext : call.copiedHeader.allocated.parser.Valid := by
    have kept := valid_endHeader copies.typed complete
    rw [ended] at kept
    exact kept
  have checks : call.copiedHeader.allocated.checks = call.checks ++
      [.copy (call.parser.unReadBytes - 1)
        (min call.rest.length (9 - call.parser.unReadBytes)) Header.size,
        .sum [call.copiedHeader.parser.allocate.unBodySize, 1]] :=
    List.append_assoc _ _ _
  by_cases stuck : call.copiedHeader.allocated.parser.Stuck
  · obtain ⟨after, turned⟩ := allocated_turned validNext stuck scanned checks copies.fine
    refine ⟨after, [], ?_⟩
    rw [List.append_nil]
    exact turned
  · obtain ⟨after, back, turned, _⟩ := readBody_free validNext (Nat.le_of_eq complete.symm) stuck
    have size : (Check.sum [call.copiedHeader.parser.allocate.unBodySize, 1]).Fine := by
      have narrow : call.copiedHeader.parser.allocate.unBodySize + 10 < 2 ^ 32 :=
        Nat.lt_of_not_le fun wide => stuck ⟨Nat.le_of_eq complete.symm, wide⟩
      simp only [Check.Fine, List.sum_cons, List.sum_nil]
      omega
    refine ⟨after, back, turned.after scanned checks ?_⟩
    simp only [List.forall_mem_cons]
    exact ⟨copies.fine, size, nofun⟩

/-- From the header on. -/
theorem readHeader_turned (valid : call.parser.Valid) (first : 2 ≤ call.parser.unReadBytes)
    (free : ¬ call.parser.Stuck) : ∃ after front, Turned call call.readHeader after front ∧
      (call.rest ≠ [] → front ≠ []) := by
  by_cases empty : call.rest = []
  · rw [readHeader_empty empty]
    exact ⟨call, [], ⟨.inl ⟨rfl, empty⟩, Scanned.refl call call.checks, [],
      (List.append_nil _).symm, iff_of_true nofun (harmless_of_free free)⟩,
      fun some_byte => absurd empty some_byte⟩
  by_cases header : call.parser.unReadBytes < 9
  · have typed := valid.toTyped
    have copies := copies typed first header empty
    rw [readHeader_copied empty header]
    by_cases complete : call.copiedHeader.parser.unReadBytes = 9
    · rw [if_pos complete]
      by_cases bad : call.copiedHeader.parser.BadHeader
      · rw [if_pos bad]
        exact ⟨_, _, copies.bad_turned typed first complete bad, fun _ => copies.some_byte⟩
      · rw [if_neg bad]
        obtain ⟨after, back, turned⟩ := copies.complete_turned typed first complete bad
        exact ⟨after, _, turned, fun _ =>
          List.append_ne_nil_of_left_ne_nil copies.some_byte back⟩
    · rw [if_neg complete]
      exact ⟨_, _, copies.incomplete_turned typed first complete, fun _ => copies.some_byte⟩
  · rw [readHeader_body empty (Nat.le_of_not_lt header)]
    exact readBody_free valid (Nat.le_of_not_lt header) free

/-- From the start flag on. -/
theorem readFlag_turned (valid : call.parser.Valid) (free : ¬ call.parser.Stuck)
    (marked : call.rest ≠ [] → call.parser.unReadBytes ≠ 0) :
    ∃ after front, Turned call call.readFlag after front ∧ (call.rest ≠ [] → front ≠ []) := by
  rw [readFlag]
  cases split : call.rest with
  | nil =>
      exact ⟨call, [], ⟨.inl ⟨rfl, split⟩, Scanned.refl call call.checks, [],
        (List.append_nil _).symm, iff_of_true nofun (harmless_of_free free)⟩,
        fun some_byte => absurd rfl some_byte⟩
  | cons byte rest =>
      have some_byte : call.rest ≠ [] := by
        rw [split]
        exact List.cons_ne_nil _ _
      have busy := marked some_byte
      dsimp only
      by_cases mark : call.parser.unReadBytes = 1
      · rw [if_pos mark]
        by_cases flag : byte = PACKET_START_FLAG
        · rw [if_pos flag]
          let middle : Call :=
            { call with
              rest
              parser.unReadBytes := 2
              parser.tHeader := call.parser.tHeader.set 0 PACKET_START_FLAG }
          have taken : call.parser.take byte = some (middle.parser, []) := by
            rw [take_flag mark, takeFlag, if_pos flag]
          have validNext : middle.parser.Valid := valid_take valid taken
          have freeNext : ¬ middle.parser.Stuck := fun ⟨read, _⟩ => absurd read (show ¬ 9 ≤ 2 by decide)
          obtain ⟨after, front, turned, _⟩ :=
            readHeader_turned validNext (Nat.le_refl 2) freeNext
          have scanned : Scanned call middle [byte] :=
            ⟨split, [], (feed_singleton _ _).trans taken, (List.append_nil _).symm⟩
          exact ⟨after, _, turned.after scanned (List.append_nil _).symm nofun,
            fun _ => List.cons_ne_nil _ _⟩
        · rw [if_neg flag]
          let middle : Call := { call with rest, parser.unReadBytes := 0 }
          have taken : call.parser.take byte = some (middle.parser, []) := by
            rw [take_flag mark, takeFlag, if_neg flag]
          have freeNext : ¬ middle.parser.Stuck := fun ⟨read, _⟩ => absurd read (show ¬ 9 ≤ 0 by decide)
          have scanned : Scanned call middle [byte] :=
            ⟨split, [], (feed_singleton _ _).trans taken, (List.append_nil _).symm⟩
          exact ⟨middle, [byte], ⟨.inr rfl, scanned, [], (List.append_nil _).symm,
            iff_of_true nofun (harmless_of_free freeNext)⟩, fun _ => List.cons_ne_nil _ _⟩
      · rw [if_neg mark]
        obtain ⟨after, front, turned, progress⟩ := readHeader_turned valid (by omega) free
        exact ⟨after, front, turned, fun _ => progress some_byte⟩

theorem valid_of_scanned {after : Call} {front : List UInt8} (valid : call.parser.Valid)
    (scanned : Scanned call after front) : after.parser.Valid := by
  obtain ⟨notices, fed, _⟩ := scanned.fed
  exact feed_kept Valid (fun valid taken => valid_take valid taken) valid fed

/-- A turn scans at least a byte. -/
theorem turn_turned (valid : call.parser.Valid) (free : ¬ call.parser.Stuck)
    (some_data : call.rest ≠ []) :
    ∃ after front, Turned call call.turn after front ∧ front ≠ [] := by
  obtain ⟨front, scanned, checks, freeNext, marked, progress⟩ := search_scanned free
  obtain ⟨after, back, turned, progressNext⟩ :=
    readFlag_turned (valid_of_scanned valid scanned) freeNext marked
  refine ⟨after, front ++ back,
    turned.after scanned (checks.trans (List.append_nil _).symm) nofun, ?_⟩
  rcases progress some_data with read | left
  · exact List.append_ne_nil_of_left_ne_nil read _
  · exact List.append_ne_nil_of_right_ne_nil _ (progressNext left)

/-- A turn that is stuck reads nothing. -/
theorem turn_stuck (valid : call.parser.Valid) (stuck : call.parser.Stuck)
    (some_data : call.rest ≠ []) : ∃ checks, call.turn = .tests { call with checks } := by
  obtain ⟨read, _⟩ := id stuck
  obtain ⟨byte, rest, split⟩ := List.exists_cons_of_ne_nil some_data
  have search : call.search = call := by
    rw [Call.search, if_neg (by omega)]
  have flag : call.readFlag = call.readHeader := by
    rw [readFlag, split]
    exact if_neg (by omega)
  rw [turn, search, flag, readHeader_body some_data read, readBody_stuck valid stuck some_data]
  exact ⟨_, rfl⟩

/-! ## The loop -/

theorem loop_stuck (fuel : Nat) (valid : call.parser.Valid) (stuck : call.parser.Stuck)
    (some_data : call.rest ≠ []) : loop fuel call = none := by
  induction fuel generalizing call with
  | zero => rfl
  | succ fuel ih =>
      obtain ⟨checks, turned⟩ := turn_stuck valid stuck some_data
      rw [loop, turned]
      dsimp only
      rw [if_neg some_data]
      exact ih valid stuck some_data

/-- More turns do not change what the loop returns. -/
theorem loop_mono {fuel more : Nat} {result : Call} (returned : loop fuel call = some result)
    (le : fuel ≤ more) : loop more call = some result := by
  induction fuel generalizing call more with
  | zero => cases returned
  | succ fuel ih =>
      obtain ⟨more, rfl⟩ := Nat.exists_eq_succ_of_ne_zero (show more ≠ 0 by omega)
      rw [loop] at returned ⊢
      cases turned : call.turn with
      | breaks after => rw [turned] at returned; exact returned
      | tests after =>
          rw [turned] at returned
          dsimp only at returned ⊢
          by_cases empty : after.rest = []
          · rw [if_pos empty] at returned ⊢
            exact returned
          · rw [if_neg empty] at returned ⊢
            exact ih returned (Nat.le_of_succ_le_succ le)

/-- The end of a loop that has scanned the data. -/
structure Finished (call after : Call) : Prop where
  parser : ∃ notices, feed take call.parser call.rest = some (after.parser, notices) ∧
    after.notices = call.notices ++ notices
  rest : after.rest = []
  checked : ∃ made, after.checks = call.checks ++ made ∧
    ((∀ check ∈ made, check.Fine) ↔ Harmless after)

/-- The loop returns where the scanner takes the data, and nowhere else. -/
theorem loop_finished {fuel : Nat} (valid : call.parser.Valid) (free : ¬ call.parser.Stuck)
    (some_data : call.rest ≠ []) (enough : call.rest.length < fuel) :
    (∃ after, loop fuel call = some after ∧ Finished call after) ∨
      loop fuel call = none ∧ feed take call.parser call.rest = none := by
  induction fuel generalizing call with
  | zero => exact absurd enough (Nat.not_lt_zero _)
  | succ fuel ih =>
      obtain ⟨after, front, turned, progress⟩ := turn_turned valid free some_data
      obtain ⟨notices, fed, told⟩ := turned.scanned.fed
      have split := turned.scanned.split
      -- a turn that has read everything ends the loop
      have whole (empty : after.rest = []) : Finished call after := by
        refine ⟨⟨notices, ?_, told⟩, empty, turned.checked⟩
        rw [split, empty, List.append_nil]
        exact fed
      rw [loop]
      rcases turned.ends with ⟨breaks, empty⟩ | tests
      · rw [breaks]
        exact .inl ⟨after, rfl, whole empty⟩
      · rw [tests]
        dsimp only
        by_cases empty : after.rest = []
        · rw [if_pos empty]
          exact .inl ⟨after, rfl, whole empty⟩
        · rw [if_neg empty, split, feed_append_of fed]
          have validNext := valid_of_scanned valid turned.scanned
          by_cases stuck : after.parser.Stuck
          · obtain ⟨byte, rest, cons⟩ := List.exists_cons_of_ne_nil empty
            refine .inr ⟨loop_stuck fuel validNext stuck empty, ?_⟩
            rw [cons, feed_cons, take_stuck stuck]
            rfl
          · have shorter : after.rest.length < fuel := by
              have := List.length_pos_of_ne_nil progress
              rw [split, List.length_append] at enough
              omega
            rcases ih validNext stuck empty shorter with ⟨last, returned, finished⟩ | ⟨none, fedNone⟩
            · obtain ⟨later, fedLater, toldLater⟩ := finished.parser
              obtain ⟨made, checks, fine⟩ := turned.checked
              obtain ⟨madeLater, checksLater, fineLater⟩ := finished.checked
              refine .inl ⟨last, returned, ⟨notices ++ later, ?_, ?_⟩, finished.rest,
                made ++ madeLater, ?_, ?_⟩
              · rw [split, feed_append_of fed, fedLater]
                rfl
              · rw [toldLater, told, List.append_assoc]
              · rw [checksLater, checks, List.append_assoc]
              · rw [List.forall_mem_append, ← fineLater]
                exact and_iff_right (fine.mpr (harmless_of_free stuck))
            · exact .inr ⟨none, by rw [fedNone]; rfl⟩

end Call

/-! ## Calls -/

variable {parser next : Parser} {data : List UInt8} {notices : List Notice}

theorem handleInData_none {fuel : Nat} (valid : parser.Valid) (some_data : data ≠ [])
    (stops : feed take parser data = none) : handleInData fuel parser data = none := by
  cases returned : handleInData fuel parser data with
  | none => rfl
  | some call =>
      have longer := Call.loop_mono returned (Nat.le_max_left fuel (data.length + 1))
      by_cases stuck : parser.Stuck
      · rw [Call.loop_stuck _ valid stuck some_data] at longer
        cases longer
      · rcases @Call.loop_finished ⟨parser, data, [], []⟩ _ valid stuck some_data
          (Nat.lt_of_succ_le (Nat.le_max_right fuel (data.length + 1))) with
          ⟨after, _, finished⟩ | ⟨none, _⟩
        · obtain ⟨notices, fed, _⟩ := finished.parser
          cases stops.symm.trans fed
        · cases none.symm.trans longer

/-- A call that returns has scanned the data, and its checks were fine unless an expected length
or a size does not fit. -/
theorem Returns.finished {call : Call} (valid : parser.Valid) (some_data : data ≠ [])
    (returns : Returns parser data call) :
    feed take parser data = some (call.parser, call.notices) ∧ call.rest = [] ∧
      ((∀ check ∈ call.checks, check.Fine) ↔ Call.Harmless call) := by
  obtain ⟨fuel, returned⟩ := returns
  have longer := Call.loop_mono returned (Nat.le_max_left fuel (data.length + 1))
  have free : ¬ parser.Stuck := by
    intro stuck
    rw [Call.loop_stuck _ valid stuck some_data] at longer
    cases longer
  rcases @Call.loop_finished ⟨parser, data, [], []⟩ _ valid free some_data
    (Nat.lt_of_succ_le (Nat.le_max_right fuel (data.length + 1))) with
    ⟨after, found, finished⟩ | ⟨none, _⟩
  · cases found.symm.trans longer
    obtain ⟨notices, fed, told⟩ := finished.parser
    obtain ⟨made, checks, fine⟩ := finished.checked
    rw [List.nil_append] at told checks
    rw [told, checks]
    exact ⟨fed, finished.rest, fine⟩
  · cases none.symm.trans longer

/-- `HandleInData` returns what the scanner gives for the data. -/
theorem received_iff (valid : parser.Valid) (some_data : data ≠ []) :
    Received parser data next notices ↔ feed take parser data = some (next, notices) := by
  constructor
  · intro ⟨call, returns, same, told⟩
    rw [← same, ← told]
    exact (returns.finished valid some_data).1
  · intro fed
    have free : ¬ parser.Stuck := by
      intro stuck
      obtain ⟨byte, rest, rfl⟩ := List.exists_cons_of_ne_nil some_data
      rw [feed_cons, take_stuck stuck] at fed
      cases fed
    rcases @Call.loop_finished ⟨parser, data, [], []⟩ _ valid free some_data
      (Nat.lt_succ_self data.length) with ⟨after, found, finished⟩ | ⟨_, none⟩
    · obtain ⟨told, fedCall, toldCall⟩ := finished.parser
      cases fed.symm.trans fedCall
      exact ⟨after, ⟨_, found⟩, rfl, toldCall⟩
    · cases none.symm.trans fed

/-- **Data in chunks is scanned as a whole.** -/
theorem receives_iff (valid : parser.Valid) {chunks : List Chunk} :
    Receives parser chunks next notices ↔
      feed take parser (stream chunks) = some (next, notices) :=
  reads_iff Valid (· ≠ []) (fun valid taken => valid_take valid taken)
    (fun valid some_data => received_iff valid some_data) valid (by
      intro chunk member
      obtain ⟨origin, _, rfl⟩ := List.mem_map.mp member
      exact origin.some_data)

end Cube.Fndnet
