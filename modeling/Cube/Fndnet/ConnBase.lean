import Cube.Lib.Scanner
import Cube.Fndnet.Packet

/-! # Packets out of received data

`HandleInData` of `WnConnBase.cpp`. The data of a read is searched for a start mark; a header,
a body and an end mark follow, and what is missing at the end of the data is expected in the
next read. `Parser` is what the connection keeps between two reads.
-/

namespace Cube.Fndnet

/-- An array of bytes, of which those written so far are known. `NULL` has no room. -/
structure HeapArray where
  room : Nat
  bytes : List UInt8
  deriving DecidableEq, Repr

def HeapArray.null : HeapArray := ⟨0, []⟩

/-- The members of `WnConnBase` that `HandleInData` keeps. -/
structure Parser where
  tHeader : Header
  unReadBytes : Nat
  pbBodyData : HeapArray
  unBodySize : Nat
  deriving DecidableEq, Repr

/-- What the local end point is told. -/
inductive Notice where
  | dataError
  | receiveData (packet : WnPacket)
  deriving DecidableEq, Repr

/-- A sum of words, or a copy of some bytes to a place in a memory with some room. -/
inductive Check where
  | sum (terms : List Nat)
  | copy (place count room : Nat)
  deriving DecidableEq, Repr

/-- The sum does not wrap, and the copy stays inside. -/
def Check.Fine : Check → Prop
  | .sum terms => terms.sum < 2 ^ 32
  | .copy place count room => place + count ≤ room

instance : DecidablePred Check.Fine
  | .sum terms => inferInstanceAs (Decidable (terms.sum < 2 ^ 32))
  | .copy place count room => inferInstanceAs (Decidable (place + count ≤ room))

namespace Parser

/-- The constructor of `WnConnBase`. -/
def initial : Parser := ⟨List.replicate Header.size 0, 0, .null, 0⟩

variable (parser : Parser)

/-- `memcpy` into the header behind the bytes it has. -/
def copyHeader (bytes : List UInt8) : Parser :=
  { parser with
    tHeader := Buffer.overwrite parser.tHeader (parser.unReadBytes - 1) bytes
    unReadBytes := parser.unReadBytes + bytes.length }

/-- `memcpy` into the body behind the bytes it has. -/
def copyBody (bytes : List UInt8) : Parser :=
  { parser with
    pbBodyData.bytes := Buffer.overwrite parser.pbBodyData.bytes (parser.unReadBytes - 1 - 8) bytes
    unReadBytes := parser.unReadBytes + bytes.length }

/-- The header has another length than its own. -/
def BadHeader : Prop := parser.tHeader.bHeaderLen.toNat ≠ Header.size

instance : Decidable parser.BadHeader := inferInstanceAs (Decidable (_ ≠ _))

/-- The memory for the body that a header announces. -/
def allocate : Parser :=
  let unBodySize := streamToInteger parser.tHeader.bPacketLen
  { parser with unBodySize, pbBodyData := ⟨word (unBodySize + 1), []⟩ }

/-- A header that is complete. -/
def endHeader : Parser × List Notice :=
  if parser.BadHeader then ({ parser with unReadBytes := 0 }, [.dataError])
  else (parser.allocate, [])

/-- A body that is complete with the byte behind it. -/
def endBody : Parser × List Notice :=
  if parser.pbBodyData.bytes.getD parser.unBodySize 0 ≠ ETX then
    ({ parser with unReadBytes := 0, pbBodyData := .null }, [.dataError])
  else
    ({ tHeader := List.replicate Header.size 0, unReadBytes := 0, pbBodyData := .null,
       unBodySize := 0 },
      [.receiveData (.ofReceived parser.tHeader
        (parser.pbBodyData.bytes.take parser.unBodySize))])

end Parser

/-! ## A call -/

/-- A call on its way: the data behind `pbPos`, what the end point was told, and the sums and
copies that were made. -/
structure Call where
  parser : Parser
  rest : List UInt8
  notices : List Notice
  checks : List Check
  deriving DecidableEq, Repr

/-- How a turn of the loop ends: with a `break`, or at the test of the loop. -/
inductive Turn where
  | breaks (call : Call)
  | tests (call : Call)
  deriving DecidableEq, Repr

namespace Call

variable (call : Call)

/-- The loop that looks for `STX`. -/
def findSTX (parser : Parser) : List UInt8 → Parser × List UInt8
  | [] => (parser, [])
  | byte :: rest =>
      if byte = STX then ({ parser with unReadBytes := 1 }, rest) else findSTX parser rest

def search : Call :=
  if call.parser.unReadBytes = 0 then
    let (parser, rest) := findSTX call.parser call.rest
    { call with parser, rest }
  else call

/-- A part that is complete, with its notices. -/
def ended (after : Parser × List Notice) : Call :=
  { call with parser := after.1, notices := call.notices ++ after.2 }

/-- The turn from the body on. -/
def readBody : Turn :=
  if call.rest = [] then .breaks call
  else
    let parser := call.parser
    let unCheckLen := word (1 + 8 + parser.unBodySize + 1)
    let call := { call with checks := call.checks ++ [.sum [1, 8, parser.unBodySize, 1]] }
    if parser.unReadBytes < unCheckLen then
      let unCopyLen := min call.rest.length (unCheckLen - parser.unReadBytes)
      let call :=
        { call with
          parser := parser.copyBody (call.rest.take unCopyLen)
          rest := call.rest.drop unCopyLen
          checks := call.checks ++
            [.copy (parser.unReadBytes - 1 - 8) unCopyLen parser.pbBodyData.room] }
      if call.parser.unReadBytes = unCheckLen then
        .tests { call.ended call.parser.endBody with
          checks := call.checks ++ [.copy parser.unBodySize 1 parser.pbBodyData.room] }
      else .tests call
    else .tests call

/-- The turn from the header on. -/
def readHeader : Turn :=
  if call.rest = [] then .breaks call
  else
    let parser := call.parser
    let unCheckLen := 1 + 8
    if parser.unReadBytes < unCheckLen then
      let unCopyLen := min call.rest.length (unCheckLen - parser.unReadBytes)
      let call :=
        { call with
          parser := parser.copyHeader (call.rest.take unCopyLen)
          rest := call.rest.drop unCopyLen
          checks := call.checks ++ [.copy (parser.unReadBytes - 1) unCopyLen Header.size] }
      if call.parser.unReadBytes = unCheckLen then
        let ended := call.ended call.parser.endHeader
        if call.parser.BadHeader then .tests ended
        else readBody { ended with checks := call.checks ++ [.sum [ended.parser.unBodySize, 1]] }
      else readBody call
    else readBody call

/-- The turn from the start flag on. -/
def readFlag : Turn :=
  match call.rest with
  | [] => .breaks call
  | byte :: rest =>
      if call.parser.unReadBytes = 1 then
        if byte = PACKET_START_FLAG then
          readHeader { call with
            rest
            parser.unReadBytes := 2
            parser.tHeader := call.parser.tHeader.set 0 PACKET_START_FLAG }
        else .tests { call with rest, parser.unReadBytes := 0 }
      else readHeader call

/-- A turn of the loop. -/
def turn : Turn := call.search.readFlag

/-- The loop, for some turns at most. -/
def loop : (fuel : Nat) → Call → Option Call
  | 0, _ => none
  | fuel + 1, call =>
      match call.turn with
      | .breaks call => some call
      | .tests call => if call.rest = [] then some call else loop fuel call

end Call

/-- `HandleInData`, for some turns of its loop at most. -/
def handleInData (fuel : Nat) (parser : Parser) (data : List UInt8) : Option Call :=
  Call.loop fuel ⟨parser, data, [], []⟩

/-- `HandleInData` returns. -/
def Returns (parser : Parser) (data : List UInt8) (call : Call) : Prop :=
  ∃ fuel, handleInData fuel parser data = some call

/-- The data of a read, in the receive buffer. -/
structure Chunk where
  bytes : List UInt8
  some_data : bytes ≠ []
  inside : bytes.length ≤ RECV_BUFFER_SIZE

/-- What the parser and the end point are after a call that returns. -/
def Received (parser : Parser) (data : List UInt8) (next : Parser) (notices : List Notice) : Prop :=
  ∃ call, Returns parser data call ∧ call.parser = next ∧ call.notices = notices

/-- The bytes that come in some chunks. -/
def stream (chunks : List Chunk) : List UInt8 := (chunks.map Chunk.bytes).flatten

/-- The reads of some chunks, in which every call returns. -/
def Receives (parser : Parser) (chunks : List Chunk) (next : Parser) (notices : List Notice) :
    Prop :=
  Scanner.Reads Received parser (chunks.map Chunk.bytes) next notices

end Cube.Fndnet
