import Cube.Fndnet.ByteParser

/-! # Received data in any chunks

The packets and errors that an end point is told of, and the state of the parser, depend on the
bytes of the stream alone, as long as no announced size is too large. A stream of packets is
received packet by packet.
-/

namespace Cube.Fndnet

open Scanner Cube.Fndnet.Parser

namespace Parser

/-- The size that a byte announces: it completes a header of the right length. -/
def announces (parser : Parser) (byte : UInt8) : Option Nat :=
  let copied := parser.copyHeader [byte]
  if 2 ≤ parser.unReadBytes ∧ copied.unReadBytes = 9 ∧ ¬ copied.BadHeader then
    some (streamToInteger copied.tHeader.bPacketLen)
  else none

/-- The sizes that are announced in a stream, up to one at which the parser is stuck. -/
def announced (parser : Parser) : List UInt8 → List Nat
  | [] => []
  | byte :: rest =>
      (parser.announces byte).toList ++
        (parser.take byte).elim [] fun taken => announced taken.1 rest

variable {parser next : Parser} {byte : UInt8} {notices : List Notice}

/-- A parser that is not stuck takes a byte. -/
theorem exists_take (free : ¬ parser.Stuck) (byte : UInt8) :
    ∃ taken, parser.take byte = some taken := by
  by_cases idle : parser.unReadBytes = 0
  · exact ⟨_, take_search idle⟩
  by_cases marked : parser.unReadBytes = 1
  · exact ⟨_, take_flag marked⟩
  by_cases header : parser.unReadBytes < 9
  · exact ⟨_, take_header (by omega) header⟩
  · exact ⟨_, take_body (by omega) free⟩

/-- A byte after which the parser is stuck announced its size. -/
theorem announces_of_take (free : ¬ parser.Stuck) (taken : parser.take byte = some (next, notices))
    (stuck : next.Stuck) : parser.announces byte = some next.unBodySize := by
  obtain ⟨read, wide⟩ := stuck
  cases taken_of_take taken with
  | skipped idle => omega
  | marked => exact absurd read (show ¬ 9 ≤ 1 by decide)
  | flagged => exact absurd read (show ¬ 9 ≤ 2 by decide)
  | unflagged => exact absurd read (show ¬ 9 ≤ 0 by decide)
  | header _ open_end =>
      change 9 ≤ parser.unReadBytes + 1 at read
      omega
  | badHeader => exact absurd read (show ¬ 9 ≤ 0 by decide)
  | announced complete good => exact if_pos ⟨by omega, complete, good⟩
  | body inside => exact absurd ⟨inside, wide⟩ free
  | badBody => exact absurd read (show ¬ 9 ≤ 0 by decide)
  | received => exact absurd read (show ¬ 9 ≤ 0 by decide)

/-- The parser is stuck at a size that is announced. -/
theorem stuck_of_announces {size : Nat} (announces : parser.announces byte = some size)
    (taken : parser.take byte = some (next, notices)) :
    next.unReadBytes = 9 ∧ next.unBodySize = size := by
  rw [Parser.announces] at announces
  by_cases complete : 2 ≤ parser.unReadBytes ∧ (parser.copyHeader [byte]).unReadBytes = 9 ∧
      ¬ (parser.copyHeader [byte]).BadHeader
  · rw [if_pos complete] at announces
    obtain ⟨first, whole, good⟩ := complete
    have last : parser.unReadBytes + 1 = 9 := whole
    rw [take_header first (by omega), if_pos last, endHeader, if_neg good] at taken
    cases taken
    exact ⟨whole, Option.some.inj announces⟩
  · rw [if_neg complete] at announces
    cases announces

/-- **Sizes that fit are enough for the parser to take a stream.** -/
theorem feed_of_announced {bytes : List UInt8} (free : ¬ parser.Stuck)
    (fits : ∀ size ∈ parser.announced bytes, size + 10 < 2 ^ 32) :
    ∃ next notices, feed take parser bytes = some (next, notices) ∧ ¬ next.Stuck := by
  induction bytes generalizing parser with
  | nil => exact ⟨parser, [], rfl, free⟩
  | cons byte bytes ih =>
      obtain ⟨⟨middle, here⟩, taken⟩ := exists_take free byte
      rw [announced, taken, Option.elim_some, List.forall_mem_append] at fits
      have freeNext : ¬ middle.Stuck := by
        intro stuck
        have small := fits.1 middle.unBodySize
          (by rw [announces_of_take free taken stuck]; exact List.mem_singleton_self _)
        exact absurd stuck.2 (Nat.not_le.mpr small)
      obtain ⟨next, later, fed, freeLast⟩ := ih freeNext fits.2
      exact ⟨next, here ++ later, by rw [feed_cons_of taken, fed]; rfl, freeLast⟩

theorem free_initial : ¬ initial.Stuck := fun ⟨read, _⟩ => absurd read (by decide)

/-! ## Packets -/

/-- A parser behind a start mark and a start flag reads the rest of a header. -/
theorem feed_header {header : Header} (read : parser.unReadBytes = 2)
    (typed : parser.Typed) (begun : parser.tHeader.head? = some PACKET_START_FLAG)
    (flag : header.head? = some PACKET_START_FLAG) (length : header.length = 8)
    (good : header.bHeaderLen.toNat = Header.size) :
    feed take parser header.tail = some ({ parser with
      tHeader := header
      unReadBytes := 9
      unBodySize := streamToInteger header.bPacketLen
      pbBodyData := ⟨word (streamToInteger header.bPacketLen + 1), []⟩ }, []) := by
  obtain ⟨first, rest, rfl⟩ := List.exists_cons_of_length_eq_add_one length
  obtain ⟨old, others, parted⟩ := List.exists_cons_of_length_eq_add_one typed.header
  have seven : rest.length = 7 := Nat.succ.inj length
  have othersSeven : others.length = 7 := by
    have := typed.header
    rw [parted] at this
    exact Nat.succ.inj this
  have same : old = first := by
    rw [parted] at begun
    exact Option.some.inj (begun.trans flag.symm)
  have whole : Buffer.overwrite parser.tHeader (parser.unReadBytes - 1) rest = first :: rest := by
    rw [parted, read, same]
    change Buffer.overwrite ([first] ++ others) 1 rest = [first] ++ rest
    exact Buffer.overwrite_left rfl (othersSeven.trans seven.symm)
  have copied : parser.copyHeader rest =
      { parser with tHeader := first :: rest, unReadBytes := 9 } := by
    rw [copyHeader, whole, read, seven]
  rw [List.tail_cons, feed_endHeader typed (by omega) (List.length_pos_iff.mp (by omega)) (by omega),
    copied, endHeader, if_neg (fun bad => bad good), allocate]

/-- A packet that was built is received, and leaves the parser as it was at first. -/
theorem feed_packet {pbData : List UInt8} {index flag : UInt8} {packet : WnPacket}
    (typed : parser.Typed) (idle : parser.unReadBytes = 0)
    (built : WnPacket.ofBody pbData index flag = some packet) :
    feed take parser packet.data = some (initial, [.receiveData packet]) := by
  obtain ⟨fits, rfl⟩ := WnPacket.ofBody_eq_some.mp built
  have size : streamToInteger (Header.ofBody pbData.length index flag).bPacketLen =
      pbData.length := Header.announced_ofBody (by omega) index flag
  let header := Header.ofBody pbData.length index flag
  have split : WnPacket.bytes header pbData =
      [STX, PACKET_START_FLAG] ++ (header.tail ++ (pbData ++ [ETX])) := by
    simp only [WnPacket.bytes, List.cons_append, List.append_assoc, List.nil_append]
    rfl
  let begun : Parser :=
    { parser with unReadBytes := 2, tHeader := parser.tHeader.set 0 PACKET_START_FLAG }
  have start : feed take parser [STX, PACKET_START_FLAG] = some (begun, []) := by
    have mark : parser.take STX = some ({ parser with unReadBytes := 1 }, []) := by
      rw [take_search idle, if_pos rfl]
    rw [feed_cons_of mark, feed_singleton, take_flag rfl]
    rfl
  have typedBegun : begun.Typed := ⟨by rw [List.length_set]; exact typed.header, typed.size⟩
  have head : begun.tHeader.head? = some PACKET_START_FLAG := by
    obtain ⟨old, others, parted⟩ := List.exists_cons_of_length_eq_add_one typed.header
    change (parser.tHeader.set 0 PACKET_START_FLAG).head? = _
    rw [parted]
    rfl
  let opened : Parser := { begun with
    tHeader := header
    unReadBytes := 9
    unBodySize := pbData.length
    pbBodyData := ⟨word (pbData.length + 1), []⟩ }
  have headed : feed take begun header.tail = some (opened, []) := by
    rw [feed_header rfl typedBegun head (show header.head? = _ from rfl) rfl rfl, size]
  have validOpened : opened.Valid := by
    refine ⟨⟨rfl, ?_⟩, fun _ => ⟨rfl, rfl, ?_⟩⟩
    · change pbData.length < 2 ^ 32
      omega
    · change 9 < pbData.length + 10
      omega
  have free : ¬ opened.Stuck := fun stuck => absurd fits (Nat.not_lt.mpr stuck.2)
  have complete : opened.unReadBytes + (pbData ++ [ETX]).length = opened.unBodySize + 10 := by
    rw [List.length_append, List.length_singleton]
    change 9 + (pbData.length + 1) = pbData.length + 10
    omega
  have copied : (opened.copyBody (pbData ++ [ETX])).pbBodyData.bytes = pbData ++ [ETX] := by
    change Buffer.overwrite [] _ (pbData ++ [ETX]) = _
    rw [Buffer.overwrite, List.take_nil, List.drop_nil, List.nil_append, List.append_nil]
  have ended : (opened.copyBody (pbData ++ [ETX])).endBody =
      (initial, [.receiveData (.ofReceived header pbData)]) := by
    have mark : (pbData ++ [ETX]).getD pbData.length 0 = ETX := by simp
    have body : (pbData ++ [ETX]).take pbData.length = pbData := List.take_left
    rw [endBody, copied]
    change (if (pbData ++ [ETX]).getD pbData.length 0 ≠ ETX then _ else _) = _
    rw [if_neg (fun other => other mark)]
    change (_, [Notice.receiveData (.ofReceived header ((pbData ++ [ETX]).take pbData.length))]) = _
    rw [body]
    rfl
  change feed take parser (WnPacket.bytes header pbData) = _
  rw [split, feed_append_of start, feed_append_of headed,
    feed_endBody validOpened (Nat.le_refl 9) free (by simp) complete, ended]
  rfl

end Parser

/-! ## What the end point is told -/

/-- The reads of some chunks from the first one on: every call returns, and this is what they
leave and tell. -/
def Delivers (chunks : List Chunk) (next : Parser) (notices : List Notice) : Prop :=
  ∀ last told, Receives initial chunks last told ↔ last = next ∧ told = notices

theorem delivers_of_feed {chunks : List Chunk} {next : Parser} {notices : List Notice}
    (fed : feed take initial (stream chunks) = some (next, notices)) :
    Delivers chunks next notices := by
  intro last told
  rw [receives_iff valid_initial, fed, Option.some.injEq, Prod.mk.injEq]
  exact and_congr eq_comm eq_comm

theorem feed_packets {packets : List WnPacket}
    (built : ∀ packet ∈ packets, ∃ pbData index flag, WnPacket.ofBody pbData index flag = some packet) :
    feed take initial (packets.flatMap WnPacket.data) =
      some (initial, packets.map Notice.receiveData) := by
  induction packets with
  | nil => rfl
  | cons packet packets ih =>
      obtain ⟨pbData, index, flag, one⟩ := built packet List.mem_cons_self
      rw [List.flatMap_cons, feed_append_of (feed_packet valid_initial.toTyped rfl one),
        ih fun other member => built other (List.mem_cons_of_mem _ member)]
      rfl

/-- **What is received does not depend on the chunks.** Streams that announce sizes that fit give
the same packets, errors and parser however they are cut, and the bytes of packets that were built
give these packets. -/
theorem delivers_in_any_chunks :
    (∀ first second : List Chunk, stream first = stream second →
      (∀ size ∈ initial.announced (stream first), size < 2 ^ 32 - 10) →
      ∃ next notices, Delivers first next notices ∧ Delivers second next notices) ∧
    (∀ (packets : List WnPacket) (chunks : List Chunk),
      (∀ packet ∈ packets, ∃ pbData index flag,
        WnPacket.ofBody pbData index flag = some packet) →
      stream chunks = packets.flatMap WnPacket.data →
      Delivers chunks initial (packets.map Notice.receiveData)) := by
  constructor
  · intro first second same fits
    obtain ⟨next, notices, fed, _⟩ :=
      feed_of_announced free_initial fun size member => Nat.add_lt_of_lt_sub (fits size member)
    exact ⟨next, notices, delivers_of_feed fed, delivers_of_feed (same ▸ fed)⟩
  · intro packets chunks built sent
    exact delivers_of_feed (by rw [sent]; exact feed_packets built)

/-- A packet with the body 1, 2, cut inside its header and inside its body. -/
theorem delivers_in_any_chunks_pair :
    Delivers [⟨[0x02, 0x78, 8], by decide, by decide⟩, ⟨[5, 0, 0, 0, 0, 2, 1], by decide, by decide⟩,
      ⟨[2, 0x03], by decide, by decide⟩] initial
      [.receiveData ⟨[0x02, 0x78, 8, 5, 0, 0, 0, 0, 2, 1, 2, 0x03]⟩] ∧
    ∃ next notices, Delivers [⟨[0x02, 7, 0x02], by decide, by decide⟩] next notices ∧
      Delivers [⟨[0x02], by decide, by decide⟩, ⟨[7, 0x02], by decide, by decide⟩] next notices :=
  ⟨delivers_in_any_chunks.2 [⟨[0x02, 0x78, 8, 5, 0, 0, 0, 0, 2, 1, 2, 0x03]⟩] _
      (List.forall_mem_singleton.mpr ⟨[1, 2], 5, 0, by decide⟩) rfl,
    delivers_in_any_chunks.1 [⟨[0x02, 7, 0x02], by decide, by decide⟩]
      [⟨[0x02], by decide, by decide⟩, ⟨[7, 0x02], by decide, by decide⟩] rfl (by decide)⟩

end Cube.Fndnet
