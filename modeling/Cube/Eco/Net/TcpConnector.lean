import Cube.Lib.Run
import Cube.Eco.Type

/-! # Reading a hand-shake

`async_read_until` of the connector reads into a buffer of fixed size until it has found the
delimiter. The search goes back only as far as the bytes of the last completion, the next
read gets what is left of the buffer, and the reads of the frames that follow get what the
socket delivers after the hand-shake was handed on.
-/

namespace Cube.Eco.Net

namespace WebSocketShakeHand

/-- `size()`. -/
def size : Nat := 1024

/-- `head_end()`: CR LF CR LF. -/
def headEnd : List UInt8 := [13, 10, 13, 10]

end WebSocketShakeHand

namespace TcpConnector

/-- The connection while its hand-shake is read: the read in flight begins behind the bytes
received, `on_read_data` got the data and the frames are read, or it got an error. -/
inductive Receiving where
  | shaking (data : List UInt8)
  | framing (data : List UInt8) (frames : List UInt8)
  | failed (data : List UInt8)
  deriving DecidableEq

/-- How a read completes. -/
inductive Completion where
  | failed
  | arrived (bytes : List UInt8)
  deriving DecidableEq

/-- `async_read_until`. -/
def asyncReadUntil : Receiving := .shaking []

/-- The bytes that the read of `async_read_some` can take: the buffer is `size` bytes. -/
def room (data : List UInt8) : Nat := WebSocketShakeHand.size - data.length

/-- `on_read_until`: `data` was received before, the search ends at its end. -/
def onReadUntil (data : List UInt8) : Completion → Receiving
  | .failed => .failed data
  | .arrived bytes =>
      let startPos := data.length
      let data := data ++ bytes
      if (EcoString.findReverse data WebSocketShakeHand.headEnd startPos).isNone then
        .shaking data
      else .framing data []

/-- A read completes with at least one byte and at most as many as it has room for, one
without room completes at once. -/
def Possible (data : List UInt8) : Completion → Prop
  | .failed => True
  | .arrived bytes => bytes.length ≤ room data ∧ (bytes = [] → room data = 0)

instance (data : List UInt8) : (completion : Completion) → Decidable (Possible data completion)
  | .failed => isTrue trivial
  | .arrived bytes =>
      inferInstanceAs (Decidable (bytes.length ≤ room data ∧ (bytes = [] → room data = 0)))

/-- The connection and all that the socket has delivered. -/
structure Connection where
  receiving : Receiving
  stream : List UInt8
  deriving DecidableEq

def Connection.start : Connection := ⟨asyncReadUntil, []⟩

def Completion.bytes : Completion → List UInt8
  | .failed => []
  | .arrived bytes => bytes

/-- One completion. -/
def turn (connection : Connection) (completion : Completion) : Connection :=
  match connection.receiving with
  | .shaking data =>
      if Possible data completion then
        ⟨onReadUntil data completion, connection.stream ++ completion.bytes⟩
      else connection
  | .framing data frames =>
      ⟨.framing data (frames ++ completion.bytes), connection.stream ++ completion.bytes⟩
  | .failed _ => connection

/-! ## What the reads should be -/

/-- The bytes contain the end of the hand-shake. -/
def Ended (bytes : List UInt8) : Prop := WebSocketShakeHand.headEnd <:+: bytes

instance (bytes : List UInt8) : Decidable (Ended bytes) :=
  inferInstanceAs (Decidable (WebSocketShakeHand.headEnd <:+: bytes))

/-- The hand-shake: its end is the first one. -/
def IsShakeHand (bytes : List UInt8) : Prop := Ended bytes ∧ ¬ Ended bytes.dropLast

/-- While the hand-shake is read its end has not arrived and the read has room; when it has
been handed on, its end has arrived and the frames get all that came after it. -/
def Segmented (connection : Connection) : Prop :=
  match connection.receiving with
  | .shaking data => ¬ Ended connection.stream ∧ 0 < room data
  | .framing _ frames => ∃ shakeHand, IsShakeHand shakeHand ∧ connection.stream = shakeHand ++ frames
  | .failed _ => True

/-- Whenever the end of the hand-shake arrives, it arrives as the last bytes of one
completion, and it does so before the buffer is full. -/
def AtOnce (connection : Connection) (completion : Completion) : Prop :=
  match connection.receiving, completion with
  | .shaking data, .arrived bytes =>
      Possible data (.arrived bytes) →
        if Ended (data ++ bytes) then
          WebSocketShakeHand.headEnd <:+ bytes ∧ ¬ Ended (data ++ bytes).dropLast
        else data.length + bytes.length < WebSocketShakeHand.size
  | _, _ => True

/-- The invariant: what was received is the stream. -/
def Received (connection : Connection) : Prop :=
  match connection.receiving with
  | .shaking data => connection.stream = data ∧ ¬ Ended data ∧ 0 < room data
  | .framing data frames => IsShakeHand data ∧ connection.stream = data ++ frames
  | .failed _ => True

/-- The search finds the end exactly when it lies within the last completion. -/
theorem onReadUntil_arrived (data bytes : List UInt8) :
    onReadUntil data (.arrived bytes) =
      if Ended bytes then .framing (data ++ bytes) [] else .shaking (data ++ bytes) := by
  have found := EcoString.findReverse_isSome (v := WebSocketShakeHand.headEnd) (by decide)
    (by decide) (data ++ bytes) data.length
  rw [List.drop_left] at found
  simp only [onReadUntil]
  by_cases ended : Ended bytes
  · rw [if_pos ended, if_neg]
    rw [Option.isNone_iff_eq_none, ← Option.not_isSome_iff_eq_none, not_not]
    exact found.mpr ended
  · rw [if_neg ended, if_pos]
    rw [Option.isNone_iff_eq_none, ← Option.not_isSome_iff_eq_none]
    exact fun isSome => ended (found.mp isSome)

/-- The end of a hand-shake is a suffix of the bytes, or it came before the last byte. -/
theorem Ended.suffix_or {bytes : List UInt8} (ended : Ended bytes) :
    WebSocketShakeHand.headEnd <:+ bytes ∨ Ended bytes.dropLast := by
  obtain ⟨before, after, rfl⟩ := ended
  rcases List.eq_nil_or_concat after with rfl | ⟨rest, last, rfl⟩
  · left
    rw [List.append_nil]
    exact List.suffix_append _ _
  · right
    rw [List.concat_eq_append, ← List.append_assoc, List.dropLast_concat]
    exact ⟨before, rest, rfl⟩

theorem Ended.of_suffix {bytes more : List UInt8} (ended : Ended bytes) (suffix : bytes <:+ more) :
    Ended more :=
  ended.trans suffix.isInfix

theorem segmented_of_received {connection : Connection} (received : Received connection) :
    Segmented connection := by
  obtain ⟨receiving, stream⟩ := connection
  cases receiving with
  | shaking data =>
      have same : stream = data := received.1
      subst same
      exact received.2
  | framing data frames => exact ⟨data, received⟩
  | failed data => trivial

/-! ## One completion -/

theorem turn_arrived {data bytes : List UInt8} (possible : Possible data (.arrived bytes))
    (stream : List UInt8) :
    turn ⟨.shaking data, stream⟩ (.arrived bytes) =
      ⟨if Ended bytes then .framing (data ++ bytes) [] else .shaking (data ++ bytes),
        stream ++ bytes⟩ := by
  simp only [turn, if_pos possible, onReadUntil_arrived, Completion.bytes]

/-- A completion that brings the end as its last bytes, or leaves the buffer room, is what
the hand-shake needs. -/
theorem received_turn {connection : Connection} (received : Received connection)
    {completion : Completion} (atOnce : AtOnce connection completion) :
    Received (turn connection completion) := by
  obtain ⟨receiving, stream⟩ := connection
  cases receiving with
  | shaking data =>
      by_cases possible : Possible data completion
      · cases completion with
        | failed => exact trivial
        | arrived bytes =>
            have same : stream = data := received.1
            subst same
            have cut := atOnce possible
            rw [turn_arrived possible]
            by_cases ended : Ended (stream ++ bytes)
            · rw [if_pos ended] at cut
              have found : Ended bytes := cut.1.isInfix
              rw [if_pos found]
              exact ⟨⟨ended, cut.2⟩, (List.append_nil _).symm⟩
            · rw [if_neg ended] at cut
              have unfound : ¬ Ended bytes := fun found =>
                ended (found.of_suffix (List.suffix_append stream bytes))
              rw [if_neg unfound]
              refine ⟨rfl, ended, ?_⟩
              rw [room, List.length_append]
              exact Nat.sub_pos_of_lt cut
      · simp only [turn, if_neg possible]
        exact received
  | framing data frames =>
      have same : stream = data ++ frames := received.2
      subst same
      exact ⟨received.1, List.append_assoc data frames completion.bytes⟩
  | failed data => trivial

/-- Any other completion of the hand-shake goes wrong: its end is missed, bytes after it are
lost, or the next read has no room. -/
theorem not_segmented_turn {connection : Connection} (received : Received connection)
    {completion : Completion} (notAtOnce : ¬ AtOnce connection completion) :
    ¬ Segmented (turn connection completion) := by
  intro segmented
  apply notAtOnce
  obtain ⟨receiving, stream⟩ := connection
  cases receiving with
  | framing data frames => trivial
  | failed data => trivial
  | shaking data =>
      cases completion with
      | failed => trivial
      | arrived bytes =>
          intro possible
          have same : stream = data := received.1
          subst same
          rw [turn_arrived possible] at segmented
          by_cases found : Ended bytes
          · rw [if_pos found] at segmented
            obtain ⟨shakeHand, isShakeHand, whole⟩ := segmented
            rw [List.append_nil] at whole
            subst whole
            have nonempty : bytes ≠ [] := by
              rintro rfl
              exact absurd found (by decide)
            have last : ¬ Ended bytes.dropLast := by
              intro earlier
              apply isShakeHand.2
              rw [List.dropLast_append_of_ne_nil nonempty]
              exact earlier.of_suffix (List.suffix_append stream bytes.dropLast)
            rw [if_pos isShakeHand.1]
            exact ⟨found.suffix_or.resolve_right last, isShakeHand.2⟩
          · rw [if_neg found] at segmented
            obtain ⟨unended, spare⟩ := segmented
            rw [if_neg unended]
            rw [room, List.length_append] at spare
            exact Nat.lt_of_sub_pos spare

/-! ## Runs -/

/-- **Segments.** Along the completions of a connection the hand-shake is handed on as soon
as its end has arrived, the frames get what came after it and no read is without room,
exactly when its end always arrives at once. -/
theorem segmented_iff (completions : List Completion) :
    Run.Always turn Segmented (fun _ _ => True) Connection.start completions ↔
      Run.Steps turn AtOnce Connection.start completions := by
  apply Run.always_iff_steps Received
  · exact fun _ received => segmented_of_received received
  · exact fun _ _ received atOnce => ⟨trivial, received_turn received atOnce⟩
  · exact fun _ _ received notAtOnce allowed => not_segmented_turn received notAtOnce allowed.2
  · exact ⟨rfl, by decide, by decide⟩

/-- The end of a hand-shake in two completions. -/
def straddled : List Completion := [.arrived [71, 13, 10, 13], .arrived [10]]

/-- It is not found: the read goes on. -/
theorem straddled_missed :
    ¬ Run.Always turn Segmented (fun _ _ => True) Connection.start straddled := by
  intro always
  have segmented : ¬ Ended [71, 13, 10, 13, 10] ∧ 0 < room [71, 13, 10, 13, 10] := always.final
  exact segmented.1 (by decide)

end TcpConnector

end Cube.Eco.Net
