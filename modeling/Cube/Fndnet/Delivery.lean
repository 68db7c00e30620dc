import Cube.Fndnet.Segmentation
import Cube.Fndnet.Sending

/-! # Packets from one end point to the other

The packets that threads send over a connection are written one after the other, and the other end
point reads what has come of the bytes in chunks of its own. The bytes of a write in flight may have
come in part.
-/

namespace Cube.Fndnet

open Interleaving Scanner Cube.Fndnet.Parser Cube.Fndnet.Connection

/-- A packet that was built for a body. -/
structure Built where
  packet : WnPacket
  built : ∃ pbData index flag, WnPacket.ofBody pbData index flag = some packet

/-- The bytes of some packets on their way. -/
def wire (sendings : List (Sending Built)) : List UInt8 :=
  (sendings.map fun sending => sending.packet.packet).flatMap WnPacket.data

/-- What the other end point is told of some packets. -/
def told (sendings : List (Sending Built)) : List Notice :=
  sendings.map fun sending => .receiveData sending.packet.packet

theorem feed_wire (sendings : List (Sending Built)) :
    feed take initial (wire sendings) = some (initial, told sendings) := by
  have built : ∀ packet ∈ sendings.map fun sending => sending.packet.packet,
      ∃ pbData index flag, WnPacket.ofBody pbData index flag = some packet := by
    intro packet member
    obtain ⟨sending, _, same⟩ := List.mem_map.mp member
    exact same ▸ sending.packet.built
  have fed := feed_packets built
  rw [List.map_map] at fed
  exact fed

/-- A front of the bytes is taken, and tells of the packets that have come whole. -/
theorem feed_front {sendings : List (Sending Built)} {bytes : List UInt8}
    (front : bytes <+: wire sendings) : ∃ count next,
      feed take initial bytes = some (next, told (sendings.take count)) := by
  obtain ⟨rest, whole⟩ := front
  have fed := feed_wire sendings
  rw [← whole, feed_append] at fed
  obtain ⟨⟨next, here⟩, begun, ended⟩ := Option.bind_eq_some_iff.mp fed
  obtain ⟨⟨last, later⟩, _, same⟩ := Option.map_eq_some_iff.mp ended
  have parts : here <+: told sendings := ⟨later, (Prod.mk.inj same).2⟩
  refine ⟨here.length, next, ?_⟩
  have count : told (sendings.take here.length) = here := by
    rw [told, List.map_take]
    exact (List.prefix_iff_eq_take.mp parts).symm
  rw [begun, count]

/-- Whatever has come of the bytes in whatever chunks, the other end point is told of a front of the
packets, each as it was built: of every packet whose bytes have come. No packet among them comes
twice or was not accepted, and those of normal priority come in the order in which they were. -/
def Arrives (connection : Connection Built) : Prop :=
  ∀ chunks : List Chunk, stream chunks <+: wire (connection.written ++ connection.writes) →
    ∃ front parser, front <+: connection.written ++ connection.writes ∧
      Delivers chunks parser (told front) ∧
      (∀ part, part <+: connection.written ++ connection.writes →
        wire part <+: stream chunks → part <+: front) ∧
      (∃ rest, (front ++ rest).Perm connection.successes) ∧
      normal front <+: normal connection.successes

theorem Connection.Ordered.arrives {connection : Connection Built}
    (ordered : connection.Ordered) : Arrives connection := by
  intro chunks come
  obtain ⟨count, parser, fed⟩ := feed_front come
  have front := List.take_prefix count (connection.written ++ connection.writes)
  have within : (connection.written ++ connection.writes).take count <+: connection.flow := by
    refine front.trans ?_
    rw [Connection.flow, ← List.append_assoc]
    exact List.prefix_append ..
  refine ⟨_, parser, front, delivers_of_feed fed, fun part first whole => ?_, ?_, ?_⟩
  · obtain ⟨more, same⟩ := whole
    rw [← same, feed_append_of (feed_wire _)] at fed
    obtain ⟨⟨last, later⟩, _, parts⟩ := Option.map_eq_some_iff.mp fed
    have length := congrArg List.length (Prod.mk.inj parts).2
    rw [List.length_append, told, told, List.length_map, List.length_map] at length
    exact List.prefix_of_prefix_length_le first front (by omega)
  · obtain ⟨rest, same⟩ := within
    exact ⟨rest, same ▸ ordered.once⟩
  · rw [← ordered.order]
    exact within.filter _

variable {ι : Type} [DecidableEq ι]

/-- **Packets from one end point to the other.** In every interleaving of senders and completions at
a connection that stays connected, in every state on the way. -/
theorem packets_delivered {choices : List (Choice ι Built)}
    (stays : ∀ choice ∈ choices, Stays choice) :
    Arrives (Run.final program.step (Threads.idle accepted) choices).shared :=
  (Run.always_of_steps Sound (fun _ sound => sound.ordered.arrives)
    (fun _ _ sound stays => ⟨trivial, sound.step stays⟩) sound_accepted
    (Run.steps_of_forall (fun choice member _ => stays choice member) _)).final

/-- A packet with the body 1, 2. -/
def pair : Built := ⟨⟨[0x02, 0x78, 8, 5, 0, 0, 0, 0, 2, 1, 2, 0x03]⟩, [1, 2], 5, 0, by decide⟩

/-- Two threads send; the second packet is in flight when the first has been written. -/
theorem packets_delivered_pairs : Arrives (Run.final program.step (Threads.idle accepted)
    [.call 1 (.asyncSend ⟨pair, false⟩), .advance 1 (), .advance 1 (),
      .call 2 (.asyncSend ⟨pair, true⟩), .advance 2 (), .advance 2 (),
      .call 3 (.complete false), .advance 3 (), .advance 3 ()]).shared :=
  packets_delivered (by decide)

end Cube.Fndnet
