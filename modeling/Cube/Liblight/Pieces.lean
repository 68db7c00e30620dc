import Cube.Liblight.Transaction

/-! # Splitting and joining

The transactions that `do_send` pushes are the pieces of a body, with a serial number that is a
`short`, and `do_receive` joins them. A body comes out as it went in exactly when it is sent in one
piece, or its last piece does not have serial number 0 again.
-/

namespace Cube.Liblight

/-- A transaction as a piece of a body. -/
def Transaction.piece (transaction : Transaction) : Fragment.Piece Int Int UInt8 :=
  ⟨transaction.head.transactionType, transaction.additional.serialnumber,
    decide (transaction.additional.hasnext ≠ 0), transaction.body⟩

theorem piece_mk (head : TransactionHead) (serialnumber totallength : Int) (hasnext : Nat)
    (userdata body : List UInt8) :
    Transaction.piece ⟨head, ⟨serialnumber, hasnext, totallength, userdata⟩, body⟩ =
      ⟨head.transactionType, serialnumber, decide (hasnext ≠ 0), body⟩ := by
  simp [Transaction.piece]

/-- The serial number that `do_receive` takes for that of a single piece. -/
def singleSerial (serialnumber : Int) : Bool := decide (serialnumber = 0)

def Received.joined (received : Received) : Fragment.Joined Int UInt8 :=
  ⟨received.receiveBuffer, received.dispatched⟩

theorem Received.eq_of_joined {first second : Received} (same : first.joined = second.joined) :
    first = second := by
  cases first
  cases second
  cases same
  rfl

/-- A serial number that is counted on. -/
theorem toInt16_succ (index : Nat) : toInt16 (toInt16 index + 1) = toInt16 (index + 1 : Nat) := by
  rw [toInt16, toInt16, Int.bmod_add_bmod, toInt16, Int.natCast_succ]

/-- **The loop of `do_send`** splits the body. -/
theorem map_piece_sendLoop (transactionType totallength : Int) {fuel index : Nat}
    {rest : List UInt8} (enough : rest.length ≤ fuel) :
    (sendLoop transactionType totallength (fuel + 1) (toInt16 index) rest).map Transaction.piece =
      Fragment.split capacity (fun index => toInt16 (index : Nat)) transactionType fuel index
        rest := by
  induction fuel generalizing index rest with
  | zero =>
      rw [List.eq_nil_of_length_eq_zero (Nat.le_zero.mp enough)]
      simp [sendLoop, Fragment.split, Transaction.piece]
  | succ fuel ih =>
      rw [sendLoop, Fragment.split]
      by_cases small : rest.length ≤ capacity
      · rw [if_pos small, if_neg (Nat.not_lt.mpr small), Nat.sub_self,
          if_neg (fun more => more rfl), List.take_length, List.map_singleton, piece_mk,
          decide_eq_false (fun more => more rfl)]
      · have large : rest.length > capacity := Nat.lt_of_not_le small
        have more : rest.length - capacity ≠ 0 := Nat.sub_ne_zero_of_lt large
        have positive : 0 < capacity := by decide
        have enoughRest : (rest.drop capacity).length ≤ fuel := by
          rw [List.length_drop]
          omega
        rw [if_neg small, if_pos large, if_pos more, List.map_cons, toInt16_succ, ih enoughRest,
          piece_mk, decide_eq_true more]

/-- The transactions of a `do_send` are as they are in memory. -/
theorem ok_of_mem_sendLoop {transactionType totallength : Int}
    (type : -2 ^ 31 ≤ transactionType ∧ transactionType < 2 ^ 31)
    (total : 0 ≤ totallength ∧ totallength < 2 ^ 31) {fuel : Nat} {serialnumber : Int}
    (serial : -2 ^ 15 ≤ serialnumber ∧ serialnumber < 2 ^ 15) {rest : List UInt8}
    (short : rest.length < 2 ^ 31) {transaction : Transaction}
    (member : transaction ∈ sendLoop transactionType totallength fuel serialnumber rest) :
    transaction.Ok := by
  induction fuel generalizing serialnumber rest with
  | zero => cases member
  | succ fuel ih =>
      rw [sendLoop] at member
      rcases List.mem_cons.mp member with rfl | member
      · have room : capacity = 8172 := rfl
        refine ⟨?_, ?_, type, serial, ?_, total, rfl⟩
        · dsimp only
          rw [List.length_take]
          split <;> omega
        · rw [List.length_take]
          split <;> omega
        · dsimp only
          omega
      · by_cases more : rest.length - (if rest.length > capacity then capacity else rest.length) ≠ 0
        · rw [if_pos more] at member
          apply ih _ _ member
          · rw [toInt16]
            have low := @Int.le_bmod (serialnumber + 1) (2 ^ 16) (by decide)
            have high := @Int.bmod_lt (serialnumber + 1) (2 ^ 16) (by decide)
            omega
          · rw [List.length_drop]
            omega
        · rw [if_neg more] at member
          cases member

/-- What is complete and not too long is dispatched as it is. -/
theorem Received.dispatch_eq (received : Received) (endpoint : Endpoint)
    (transactionType : Int) (additional : TransactionAdditional) {body : List UInt8}
    (short : body.length ≤ 2 ^ 31 - 21) :
    received.dispatch endpoint ⟨body.length, transactionType⟩ additional body =
      some { received with dispatched := received.dispatched ++ [(transactionType, body)] } := by
  rw [dispatch.eq_def]
  cases endpoint with
  | session =>
      dsimp only
      rw [Transaction.make_of_le rfl short]
      rfl
  | clientapi =>
      dsimp only
      rw [Int.toNat_natCast, List.take_length]

/-- **`do_receive`** joins the piece, while what it holds is not too long. -/
theorem Received.doReceive_eq (received : Received) (endpoint : Endpoint)
    {transaction : Transaction} (length : transaction.head.bodyLength = transaction.body.length)
    (short : received.receiveBuffer.length + transaction.body.length ≤ 2 ^ 31 - 21) :
    ∃ next, received.doReceive endpoint transaction = some next ∧
      next.joined = Fragment.join singleSerial received.joined transaction.piece := by
  obtain ⟨⟨bodyLength, transactionType⟩, additional, body⟩ := transaction
  dsimp only at length short
  subst length
  rw [doReceive, Fragment.join]
  dsimp only [Transaction.piece, singleSerial]
  by_cases last : additional.hasnext = 0
  · by_cases single : additional.serialnumber = 0
    · rw [if_pos ⟨last, single⟩, dispatch_eq _ _ _ _ (by omega)]
      exact ⟨_, rfl, by simp [last, single, joined]⟩
    · have whole : (received.receiveBuffer ++ body).length ≤ 2 ^ 31 - 21 := by
        rw [List.length_append]
        exact short
      have count : toInt32 (received.receiveBuffer ++ body).length =
          (received.receiveBuffer ++ body).length := by
        apply Int.bmod_eq_of_le_mul_two <;> omega
      rw [if_neg fun both => single both.2, if_pos last, count, dispatch_eq _ _ _ _ whole]
      exact ⟨_, rfl, by simp [last, single, joined]⟩
  · rw [if_neg fun both => last both.1, if_neg last]
    exact ⟨_, rfl, by simp [last, joined]⟩

/-- A type that is not one of a heartbeat. -/
def Ordinary (transactionType : Int) : Prop :=
  transactionType ≠ kHeartBeatServer ∧ transactionType ≠ kHeartBeatClient

theorem Received.take_of_ordinary (received : Received) (endpoint : Endpoint)
    {transaction : Transaction} (ordinary : Ordinary transaction.head.transactionType) :
    received.take endpoint transaction = received.doReceive endpoint transaction :=
  if_pos ordinary

theorem Received.take_of_not_ordinary (received : Received) (endpoint : Endpoint)
    {transaction : Transaction} (heartbeat : ¬ Ordinary transaction.head.transactionType) :
    received.take endpoint transaction = some received :=
  if_neg heartbeat

/-- Transactions are taken one after another. -/
def Received.takeAll (received : Received) (endpoint : Endpoint)
    (transactions : List Transaction) : Option Received :=
  transactions.foldlM (fun received transaction => received.take endpoint transaction) received

theorem Received.takeAll_append (received : Received) (endpoint : Endpoint)
    (first second : List Transaction) : received.takeAll endpoint (first ++ second) =
      (received.takeAll endpoint first).bind fun next => next.takeAll endpoint second := by
  rw [takeAll, List.foldlM_append]
  rfl

theorem Received.takeAll_cons (received : Received) (endpoint : Endpoint)
    (transaction : Transaction) (transactions : List Transaction) :
    received.takeAll endpoint (transaction :: transactions) =
      (received.take endpoint transaction).bind fun next => next.takeAll endpoint transactions := by
  rw [takeAll, List.foldlM_cons]
  rfl

/-- Pieces that are not too long together are joined. -/
theorem Received.takeAll_pieces (received : Received) (endpoint : Endpoint)
    {transactions : List Transaction}
    (ordinary : ∀ transaction ∈ transactions, Ordinary transaction.head.transactionType)
    (length : ∀ transaction ∈ transactions,
      transaction.head.bodyLength = transaction.body.length)
    (short : received.receiveBuffer.length + (transactions.map Transaction.body).flatten.length ≤
      2 ^ 31 - 21) :
    ∃ next, received.takeAll endpoint transactions = some next ∧
      next.joined =
        (transactions.map Transaction.piece).foldl (Fragment.join singleSerial) received.joined := by
  induction transactions generalizing received with
  | nil => exact ⟨received, rfl, rfl⟩
  | cons transaction transactions ih =>
      rw [List.map_cons, List.flatten_cons, List.length_append] at short
      obtain ⟨first, taken, joinedFirst⟩ := received.doReceive_eq endpoint
        (length transaction List.mem_cons_self) (by omega)
      have held := @Fragment.length_held_join_le _ _ _ singleSerial received.joined
        transaction.piece
      rw [← joinedFirst] at held
      change first.receiveBuffer.length ≤
        received.receiveBuffer.length + transaction.body.length at held
      obtain ⟨next, all, joinedNext⟩ := ih first
        (fun other member => ordinary other (List.mem_cons_of_mem _ member))
        (fun other member => length other (List.mem_cons_of_mem _ member)) (by omega)
      refine ⟨next, ?_, ?_⟩
      · rw [takeAll_cons, take_of_ordinary _ _ (ordinary transaction List.mem_cons_self), taken,
          Option.bind_some, all]
      · rw [joinedNext, joinedFirst]
        rfl

/-- How many pieces a body of a length is sent in. -/
def pieceCount (length : Nat) : Nat := Fragment.pieces capacity length

/-- The last serial number is 0 exactly when their count is 1 more than a multiple of 65536. -/
theorem singleSerial_eq_false {length : Nat} :
    singleSerial (toInt16 (pieceCount length - 1 : Nat)) = false ↔
      pieceCount length % 65536 ≠ 1 := by
  have positive : 1 ≤ pieceCount length := Nat.succ_le_succ (Nat.zero_le _)
  have divides := Int.dvd_iff_bmod_eq_zero (a := 2 ^ 16) (b := (pieceCount length - 1 : Nat))
  rw [singleSerial, decide_eq_false_iff_not, toInt16, ← divides]
  omega

/-- What `do_send` pushes for a transaction. -/
theorem doSend_map_piece (transactionType : Int) (body : List UInt8) :
    (doSend ⟨body.length, transactionType⟩ body).map Transaction.piece =
      Fragment.split capacity (fun index => toInt16 (index : Nat)) transactionType body.length 0
        body := by
  have start : toInt16 (0 : Nat) = 0 := by decide
  have pieces := @map_piece_sendLoop transactionType body.length body.length 0 body (Nat.le_refl _)
  rw [start] at pieces
  exact pieces

theorem ok_of_mem_doSend {transactionType : Int}
    (type : -2 ^ 31 ≤ transactionType ∧ transactionType < 2 ^ 31) {body : List UInt8}
    (short : body.length < 2 ^ 31) {transaction : Transaction}
    (member : transaction ∈ doSend ⟨body.length, transactionType⟩ body) : transaction.Ok :=
  ok_of_mem_sendLoop type ⟨Int.natCast_nonneg _, by omega⟩ (by decide) short member

theorem type_of_mem_doSend {transactionType : Int} {body : List UInt8} {transaction : Transaction}
    (member : transaction ∈ doSend ⟨body.length, transactionType⟩ body) :
    transaction.head.transactionType = transactionType := by
  have piece := List.mem_map_of_mem (f := Transaction.piece) member
  rw [doSend_map_piece] at piece
  exact Fragment.label_of_mem_split piece

/-- **Splitting and joining** are inverse exactly for bodies that are sent in one piece, or in a
number of pieces that is not 1 more than a multiple of 65536. -/
theorem takeAll_doSend_iff (endpoint : Endpoint) {transactionType : Int}
    (type : -2 ^ 31 ≤ transactionType ∧ transactionType < 2 ^ 31)
    (ordinary : Ordinary transactionType) {body : List UInt8}
    (short : body.length ≤ 2 ^ 31 - 21) (whole : List (Int × List UInt8)) :
    Received.takeAll ⟨[], whole⟩ endpoint (doSend ⟨body.length, transactionType⟩ body) =
        some ⟨[], whole ++ [(transactionType, body)]⟩ ↔
      pieceCount body.length = 1 ∨ pieceCount body.length % 65536 ≠ 1 := by
  have positive : 0 < capacity := by decide
  have ok (transaction : Transaction)
      (member : transaction ∈ doSend ⟨body.length, transactionType⟩ body) : transaction.Ok :=
    ok_of_mem_doSend type (by omega) member
  have bodies : ((doSend ⟨body.length, transactionType⟩ body).map Transaction.body).flatten =
      body := by
    rw [show Transaction.body = Fragment.Piece.content ∘ Transaction.piece from rfl, ← List.map_map,
      doSend_map_piece, Fragment.flatten_split positive]
  obtain ⟨next, all, joined⟩ := Received.takeAll_pieces ⟨[], whole⟩ endpoint
    (fun transaction member => (type_of_mem_doSend member).symm ▸ ordinary)
    (fun transaction member => (ok transaction member).bodyLength)
    (by rw [bodies, List.length_nil]; omega)
  have inverse := @Fragment.join_split_iff _ _ _ capacity (fun index : Nat => toInt16 index)
    transactionType singleSerial positive _ _ (Nat.le_refl body.length) whole
  rw [doSend_map_piece] at joined
  rw [← singleSerial_eq_false, all, Option.some.injEq]
  refine Iff.trans ?_ inverse
  rw [show Received.joined ⟨[], whole⟩ = ⟨[], whole⟩ from rfl] at joined
  rw [← joined]
  constructor
  · rintro rfl
    rfl
  · intro same
    apply Received.eq_of_joined
    exact same

end Cube.Liblight
