import Mathlib.Tactic.SplitIfs
import Cube.Lib.BigEndian
import Cube.Lib.Fragment
import Cube.Liblight.Buffer

/-! # Transactions

The packed heads of `transaction.h` and the memory that a `transaction` holds, the pieces that
`do_send` makes of a transaction, and `do_receive`. Integers are in memory with the least
significant byte first, as on the machines that this runs on.
-/

namespace Cube.Liblight

/-- What is left of a number in an `int`. -/
def toInt32 (n : Int) : Int := n.bmod (2 ^ 32)

/-- What is left of a number in a `short`. -/
def toInt16 (n : Int) : Int := n.bmod (2 ^ 16)

/-- An integer of a width as it is in memory. -/
def store (width : Nat) (value : Int) : List UInt8 :=
  (BigEndian.encode width (value % (256 ^ width : Nat)).toNat).reverse

/-- The integer of its width that some bytes are. -/
def load (bytes : List UInt8) : Int :=
  ((BigEndian.decode bytes.reverse : Nat) : Int).bmod (256 ^ bytes.length)

@[simp] theorem length_store (width : Nat) (value : Int) : (store width value).length = width := by
  rw [store, List.length_reverse, BigEndian.length_encode]

/-- An integer that fits its width is read back. -/
theorem load_store {width : Nat} {value : Int} (low : -(256 ^ width : Nat) ≤ value * 2)
    (high : value * 2 < (256 ^ width : Nat)) : load (store width value) = value := by
  have positive : 0 < 256 ^ width := Nat.pow_pos (by decide)
  have lower := Int.emod_nonneg value (Int.ofNat_ne_zero.mpr (Nat.ne_of_gt positive))
  have upper := Int.emod_lt_of_pos value (Int.ofNat_lt.mpr positive)
  have small : (value % (256 ^ width : Nat)).toNat < 256 ^ width := (Int.toNat_lt lower).mpr upper
  rw [load, length_store, store, List.reverse_reverse, BigEndian.decode_encode_of_lt small,
    Int.toNat_of_nonneg lower, Int.emod_bmod]
  exact Int.bmod_eq_of_le_mul_two low high

/-- Four bytes are an `int`. -/
theorem load_bounds {bytes : List UInt8} (length : bytes.length = 4) :
    -2 ^ 31 ≤ load bytes ∧ load bytes < 2 ^ 31 := by
  rw [load, length]
  have low := @Int.le_bmod (BigEndian.decode bytes.reverse : Int) _ (show 0 < 256 ^ 4 by decide)
  have high := @Int.bmod_lt (BigEndian.decode bytes.reverse : Int) _ (show 0 < 256 ^ 4 by decide)
  omega

/-! ## Heads -/

structure TransactionHead where
  bodyLength : Int
  transactionType : Int
  deriving DecidableEq, Repr

structure TransactionAdditional where
  serialnumber : Int
  hasnext : Int
  totallength : Int
  userdata : List UInt8
  deriving DecidableEq, Repr

/-- `Trans_Head_Length_`. -/
def headLength : Nat := 8

/-- `Trans_Head_Additional_Length_`. -/
def headAdditionalLength : Nat := 12

def kHeartBeatClient : Int := 1

def kHeartBeatServer : Int := 2

namespace TransactionHead

def bytes (head : TransactionHead) : List UInt8 :=
  store 4 head.bodyLength ++ store 4 head.transactionType

/-- The head that some memory is read as. -/
def ofBytes (memory : List UInt8) : TransactionHead :=
  ⟨load (memory.take 4), load ((memory.drop 4).take 4)⟩

end TransactionHead

namespace TransactionAdditional

/-- The constructor. -/
def make : TransactionAdditional := ⟨0, 0, 0, [0, 0]⟩

def bytes (additional : TransactionAdditional) : List UInt8 :=
  store 2 additional.serialnumber ++ (store 4 additional.hasnext ++
    (store 4 additional.totallength ++ additional.userdata))

def ofBytes (memory : List UInt8) : TransactionAdditional :=
  ⟨load (memory.take 2), load ((memory.drop 2).take 4), load ((memory.drop 6).take 4),
    (memory.drop 10).take 2⟩

end TransactionAdditional

/-- A `transaction`, whose memory is both heads and the body. -/
structure Transaction where
  head : TransactionHead
  additional : TransactionAdditional
  body : List UInt8
  deriving DecidableEq, Repr

namespace Transaction

/-- `get_additionallength`. -/
def additionallength : Nat := headLength + headAdditionalLength

/-- The constructors. The memory is allocated in a length that is an `int`; where that is negative
or too small for what is copied, nothing is built. -/
def make (head : TransactionHead) (additional : TransactionAdditional) (pbody : List UInt8) :
    Option Transaction :=
  let totallength := toInt32 (additionallength + head.bodyLength)
  if 0 ≤ head.bodyLength ∧ 0 ≤ totallength then
    some ⟨head, additional, pbody.take head.bodyLength.toNat⟩
  else none

/-- `get_buffer`. -/
def buffer (transaction : Transaction) : List UInt8 :=
  transaction.head.bytes ++ (transaction.additional.bytes ++ transaction.body)

/-- The lengths with which a transaction is built. -/
theorem make_eq_some_iff {head : TransactionHead} {additional : TransactionAdditional}
    {pbody : List UInt8} {transaction : Transaction} (bound : head.bodyLength < 2 ^ 31) :
    make head additional pbody = some transaction ↔
      0 ≤ head.bodyLength ∧ head.bodyLength ≤ 2 ^ 31 - 21 ∧
        transaction = ⟨head, additional, pbody.take head.bodyLength.toNat⟩ := by
  have total (low : 0 ≤ head.bodyLength) :
      0 ≤ toInt32 (additionallength + head.bodyLength) ↔ head.bodyLength ≤ 2 ^ 31 - 21 := by
    rw [toInt32, Int.bmod_def]
    simp only [additionallength, headLength, headAdditionalLength]
    split_ifs <;> omega
  rw [make]
  by_cases low : 0 ≤ head.bodyLength
  · by_cases high : head.bodyLength ≤ 2 ^ 31 - 21
    · rw [if_pos ⟨low, (total low).mpr high⟩, Option.some.injEq]
      exact ⟨fun same => ⟨low, high, same.symm⟩, fun same => same.2.2.symm⟩
    · rw [if_neg fun both => high ((total low).mp both.2)]
      exact iff_of_false nofun fun both => high both.2.1
  · rw [if_neg fun both => low both.1]
    exact iff_of_false nofun fun both => low both.1

/-- A transaction with the length of its body is built with the whole body. -/
theorem make_of_le {head : TransactionHead} {body : List UInt8}
    (length : head.bodyLength = body.length) (short : body.length ≤ 2 ^ 31 - 21)
    (additional : TransactionAdditional) :
    make head additional body = some ⟨head, additional, body⟩ := by
  have int : head.bodyLength < 2 ^ 31 := by omega
  apply (make_eq_some_iff int).mpr
  refine ⟨by omega, by omega, ?_⟩
  rw [length, Int.toNat_natCast, List.take_length]

/-- The length of the memory of a larger one is no `int`. -/
theorem make_of_lt {head : TransactionHead} {body : List UInt8}
    (length : head.bodyLength = body.length) (large : 2 ^ 31 - 21 < body.length)
    (int : body.length < 2 ^ 31) (additional : TransactionAdditional) :
    make head additional body = none := by
  rw [Option.eq_none_iff_forall_ne_some]
  intro transaction made
  have bound : head.bodyLength < 2 ^ 31 := by omega
  have high := ((make_eq_some_iff bound).mp made).2.1
  omega

/-- A transaction whose numbers are as they are in memory. -/
structure Ok (transaction : Transaction) : Prop where
  bodyLength : transaction.head.bodyLength = transaction.body.length
  small : transaction.body.length ≤ 8172
  transactionType : -2 ^ 31 ≤ transaction.head.transactionType ∧
    transaction.head.transactionType < 2 ^ 31
  serialnumber : -2 ^ 15 ≤ transaction.additional.serialnumber ∧
    transaction.additional.serialnumber < 2 ^ 15
  hasnext : 0 ≤ transaction.additional.hasnext ∧ transaction.additional.hasnext < 2 ^ 31
  totallength : 0 ≤ transaction.additional.totallength ∧
    transaction.additional.totallength < 2 ^ 31
  userdata : transaction.additional.userdata.length = 2

variable {transaction : Transaction}

theorem length_head : transaction.head.bytes.length = headLength := by
  rw [TransactionHead.bytes, List.length_append, length_store, length_store]
  rfl

theorem Ok.length_additional (ok : transaction.Ok) :
    transaction.additional.bytes.length = headAdditionalLength := by
  simp only [TransactionAdditional.bytes, List.length_append, length_store, ok.userdata]
  rfl

theorem Ok.length_buffer (ok : transaction.Ok) :
    transaction.buffer.length = additionallength + transaction.body.length := by
  rw [buffer, List.length_append, List.length_append, length_head, ok.length_additional,
    additionallength, Nat.add_assoc]

/-- The head of a transaction is read back. -/
theorem Ok.head_ofBytes (ok : transaction.Ok) (rest : List UInt8) :
    TransactionHead.ofBytes (transaction.buffer ++ rest) = transaction.head := by
  have length := @load_store 4 transaction.head.bodyLength
    (by have := ok.bodyLength; have := ok.small; omega)
    (by have := ok.bodyLength; have := ok.small; omega)
  have type := @load_store 4 transaction.head.transactionType
    (by have := ok.transactionType; omega) (by have := ok.transactionType; omega)
  rw [TransactionHead.ofBytes, buffer, TransactionHead.bytes, List.append_assoc, List.append_assoc,
    List.take_left' (length_store 4 _), List.drop_left' (length_store 4 _),
    List.take_left' (length_store 4 _), length, type]

/-- The additional head of a transaction is read back. -/
theorem Ok.additional_ofBytes (ok : transaction.Ok) (rest : List UInt8) :
    TransactionAdditional.ofBytes ((transaction.buffer ++ rest).drop headLength) =
      transaction.additional := by
  have serial := @load_store 2 transaction.additional.serialnumber
    (by have := ok.serialnumber; omega) (by have := ok.serialnumber; omega)
  have hasnext := @load_store 4 transaction.additional.hasnext
    (by have := ok.hasnext; omega) (by have := ok.hasnext; omega)
  have total := @load_store 4 transaction.additional.totallength
    (by have := ok.totallength; omega) (by have := ok.totallength; omega)
  have two (bytes : List UInt8) : (store 2 transaction.additional.serialnumber ++ bytes).drop 2 =
    bytes := List.drop_left' (length_store 2 _)
  have six (bytes : List UInt8) : (store 2 transaction.additional.serialnumber ++
      (store 4 transaction.additional.hasnext ++ bytes)).drop 6 = bytes := by
    rw [← List.append_assoc]
    exact List.drop_left' (by rw [List.length_append, length_store, length_store])
  have ten (bytes : List UInt8) : (store 2 transaction.additional.serialnumber ++
      (store 4 transaction.additional.hasnext ++
        (store 4 transaction.additional.totallength ++ bytes))).drop 10 = bytes := by
    rw [← List.append_assoc, ← List.append_assoc]
    exact List.drop_left' (by simp only [List.length_append, length_store])
  rw [buffer, List.append_assoc, List.drop_left' length_head, TransactionAdditional.bytes]
  simp only [List.append_assoc]
  rw [TransactionAdditional.ofBytes, List.take_left' (length_store 2 _), two,
    List.take_left' (length_store 4 _), six, List.take_left' (length_store 4 _), ten,
    List.take_left' ok.userdata, serial, hasnext, total]

/-- The body of a transaction is what follows its heads. -/
theorem Ok.drop_buffer (ok : transaction.Ok) (rest : List UInt8) :
    (transaction.buffer ++ rest).drop additionallength = transaction.body ++ rest := by
  rw [buffer, ← List.append_assoc, List.append_assoc, List.drop_left']
  rw [List.length_append, length_head, ok.length_additional, additionallength]

end Transaction

/-! ## Sending in pieces -/

/-- The largest body of a piece. -/
def capacity : Nat := Buffer.kInitialSize - Transaction.additionallength

/-- The loop of `do_send`: the transactions that it pushes, from a serial number on, for what is
left of the body. Their constructors get no length above the capacity. -/
def sendLoop (transactionType totallength : Int) :
    (fuel : Nat) → (serialnumber : Int) → (rest : List UInt8) → List Transaction
  | 0, _, _ => []
  | fuel + 1, serialnumber, rest =>
      let bodyLength := if rest.length > capacity then capacity else rest.length
      let hasnext := rest.length - bodyLength
      ⟨⟨bodyLength, transactionType⟩, ⟨serialnumber, hasnext, totallength, [0, 0]⟩,
          rest.take bodyLength⟩ ::
        if hasnext ≠ 0 then
          sendLoop transactionType totallength fuel (toInt16 (serialnumber + 1))
            (rest.drop bodyLength)
        else []

/-- `do_send`. -/
def doSend (head : TransactionHead) (body : List UInt8) : List Transaction :=
  sendLoop head.transactionType head.bodyLength (body.length + 1) 0 body

/-! ## Receiving -/

/-- The two ends of a connection. They differ in the check of a body length, and in what they do
with a transaction that is complete. -/
inductive Endpoint where
  | session
  | clientapi
  deriving DecidableEq

/-- The bytes of a transaction that is not complete, and the transactions that were dispatched. -/
structure Received where
  receiveBuffer : List UInt8
  dispatched : List (Int × List UInt8)
  deriving DecidableEq

namespace Received

/-- A transaction is given to the dispatcher, or a body to the receive handle, which reads as much
of it as the head says. -/
def dispatch (received : Received) (endpoint : Endpoint) (head : TransactionHead)
    (additional : TransactionAdditional) (body : List UInt8) : Option Received :=
  match endpoint with
  | .session => (Transaction.make head additional body).map fun transaction =>
      { received with
        dispatched := received.dispatched ++ [(head.transactionType, transaction.body)] }
  | .clientapi => some { received with
      dispatched := received.dispatched ++
        [(head.transactionType, body.take head.bodyLength.toNat)] }

/-- `do_receive`. -/
def doReceive (received : Received) (endpoint : Endpoint) (transaction : Transaction) :
    Option Received :=
  let additional := transaction.additional
  if additional.hasnext = 0 ∧ additional.serialnumber = 0 then
    received.dispatch endpoint transaction.head additional transaction.body
  else
    let receiveBuffer := received.receiveBuffer ++ transaction.body
    if additional.hasnext = 0 then
      (received.dispatch endpoint
        ⟨toInt32 receiveBuffer.length, transaction.head.transactionType⟩ additional
        receiveBuffer).map fun received => { received with receiveBuffer := [] }
    else some { received with receiveBuffer := receiveBuffer }

/-- A transaction that is complete is received, unless it is a heartbeat. -/
def take (received : Received) (endpoint : Endpoint) (transaction : Transaction) :
    Option Received :=
  if transaction.head.transactionType ≠ kHeartBeatServer ∧
      transaction.head.transactionType ≠ kHeartBeatClient then
    received.doReceive endpoint transaction
  else some received

end Received

end Cube.Liblight
