import Mathlib.Data.List.Perm.Basic
import Cube.Fndnet.Connection

/-! # Every packet is sent once

While a connection stays connected, at most one write is in flight, and it ends when its
completion has been through the mutex: the thread that completes it either begins the next write
or finds the list empty. What was accepted is what was written, what is being written and what is
in the list.
-/

namespace Cube.Fndnet

open Interleaving

namespace Connection

variable {ι π : Type}

/-! ## The connection -/

/-- The packets whose `AsyncSend` was successful. -/
def successes (connection : Connection π) : List (Sending π) :=
  (connection.answers.filter fun answer => answer.2 = .success).map Prod.fst

/-- The packets on their way, from the first one written to the last one in the list. -/
def flow (connection : Connection π) : List (Sending π) :=
  connection.written ++ (connection.writes ++ connection.sendPacketList)

/-- The packets of normal priority. -/
def normal (sendings : List (Sending π)) : List (Sending π) :=
  sendings.filter fun sending => !sending.blHighPriority

/-- What holds of a connection that stays connected. -/
structure Ordered (connection : Connection π) : Prop where
  connected : connection.blConnected = true
  single : connection.writes.length ≤ 1
  writing : connection.writes ≠ [] → connection.blWriting = true
  held : ∀ sending ∈ connection.writes, connection.apPacket = some sending
  idle : connection.blWriting = false → connection.sendPacketList = []
  once : connection.flow.Perm connection.successes
  order : normal connection.flow = normal connection.successes

variable {connection : Connection π}

theorem ordered_accepted : (accepted : Connection π).Ordered :=
  ⟨rfl, Nat.zero_le 1, fun some_write => absurd rfl some_write, nofun, fun _ => rfl, .refl _, rfl⟩

theorem successes_answer (sending : Sending π) :
    (connection.answer sending .success).successes = connection.successes ++ [sending] := by
  rw [successes, answer, List.filter_append, List.map_append]
  rfl

/-- The list after a packet was put into it, between what came before it and what comes after. -/
theorem push_split (sending : Sending π) : ∃ front back, connection.sendPacketList = front ++ back ∧
    (connection.push sending).sendPacketList = front ++ sending :: back ∧
    (sending.blHighPriority = false → back = []) := by
  by_cases high : sending.blHighPriority
  · refine ⟨[], connection.sendPacketList, rfl, ?_, fun low => ?_⟩
    · rw [push, if_pos high, List.nil_append]
    · rw [high] at low
      cases low
  · refine ⟨connection.sendPacketList, [], (List.append_nil _).symm, ?_, fun _ => rfl⟩
    rw [push, if_neg high]

/-- A packet that is put into the list joins the flow, behind every normal packet if it is one. -/
theorem flow_push (sending : Sending π) :
    (connection.push sending).flow.Perm (connection.flow ++ [sending]) ∧
      normal (connection.push sending).flow = normal (connection.flow ++ [sending]) := by
  obtain ⟨front, back, split, pushed, low⟩ := connection.push_split sending
  have before : connection.flow = (connection.written ++ (connection.writes ++ front)) ++ back := by
    rw [flow, split]
    simp only [List.append_assoc]
  have after : (connection.push sending).flow =
      (connection.written ++ (connection.writes ++ front)) ++ sending :: back := by
    rw [flow, pushed]
    simp only [List.append_assoc]
    rfl
  rw [before, after]
  constructor
  · exact List.perm_middle.trans (List.perm_append_singleton sending _).symm
  · by_cases high : sending.blHighPriority
    · simp [normal, high]
    · rw [low (by simpa using high), List.append_nil]

/-- Beginning a write moves the first packet of the list to the socket. -/
theorem flow_beginWrite : connection.beginWrite.flow = connection.flow := by
  rw [beginWrite]
  cases list : connection.sendPacketList with
  | nil => rfl
  | cons sending rest => rw [flow, flow, list, List.append_assoc, List.singleton_append]

theorem successes_beginWrite : connection.beginWrite.successes = connection.successes := by
  rw [beginWrite]
  cases connection.sendPacketList <;> rfl

/-- A write begins where none is in flight. -/
theorem ordered_beginWrite (connected : connection.blConnected = true)
    (flag : connection.blWriting = true) (free : connection.writes = [])
    (some_packet : connection.sendPacketList ≠ [])
    (once : connection.flow.Perm connection.successes)
    (order : normal connection.flow = normal connection.successes) :
    connection.beginWrite.Ordered ∧ connection.beginWrite.writes ≠ [] := by
  obtain ⟨sending, rest, list⟩ := List.exists_cons_of_ne_nil some_packet
  have begun : connection.beginWrite = { connection with
      apPacket := some sending
      sendPacketList := rest
      writes := [sending] } := by
    rw [beginWrite, list, free]
    rfl
  rw [← flow_beginWrite, ← successes_beginWrite] at once order
  refine ⟨⟨?_, ?_, ?_, ?_, ?_, once, order⟩, ?_⟩
  · rw [begun]
    exact connected
  · rw [begun]
    exact Nat.le_refl 1
  · intro _
    rw [begun]
    exact flag
  · rw [begun]
    intro other member
    exact congrArg some (List.mem_singleton.mp member).symm
  · intro off
    rw [begun] at off
    exact absurd (flag.symm.trans off) (by decide)
  · rw [begun]
    exact List.cons_ne_nil _ _

theorem answer_beginWrite (connection : Connection π) (sending : Sending π)
    (result : AsynSendResult) : connection.beginWrite.answer sending result =
      (connection.answer sending result).beginWrite := by
  obtain ⟨blConnected, blWriting, list, apPacket, writes, written, answers⟩ := connection
  cases list <;> rfl

/-- What `AsyncSend` has done once it gives the mutex back. -/
theorem advance_send (sending : Sending π) : (connection.send sending).answer sending .success =
    if connection.blWriting then (connection.push sending).answer sending .success
    else beginWrite { (connection.push sending).answer sending .success with blWriting := true } := by
  rw [send]
  by_cases writing : connection.blWriting = true
  · rw [if_pos writing]
    exact congrArg (Connection.answer · sending .success) (if_pos writing)
  · rw [if_neg writing]
    exact (congrArg (Connection.answer · sending .success) (if_neg writing)).trans
      (answer_beginWrite _ _ _)

/-- A packet that is accepted begins its write, or joins the list of a connection that writes. -/
theorem Ordered.send (ordered : connection.Ordered) (sending : Sending π) :
    ((connection.send sending).answer sending .success).Ordered ∧
      (¬ connection.blWriting = true →
        ((connection.send sending).answer sending .success).writes ≠ []) := by
  obtain ⟨once, order⟩ := connection.flow_push sending
  have joined := once.trans (ordered.once.append_right [sending])
  have inOrder : normal (connection.push sending).flow = normal (connection.successes ++ [sending]) := by
    rw [order, normal, normal, List.filter_append, List.filter_append]
    exact congrArg (· ++ _) ordered.order
  rw [← successes_answer] at joined inOrder
  rw [advance_send]
  by_cases writing : connection.blWriting = true
  · rw [if_pos writing]
    refine ⟨⟨ordered.connected, ordered.single, ordered.writing, ordered.held, fun off => ?_,
      joined, inOrder⟩, fun off => absurd writing off⟩
    exact absurd (writing.symm.trans off) (by decide)
  · rw [if_neg writing]
    have free : connection.writes = [] := by
      by_contra some_write
      exact writing (ordered.writing some_write)
    obtain ⟨front, back, _, pushed, _⟩ := connection.push_split sending
    have some_packet : (connection.push sending).sendPacketList ≠ [] := by
      rw [pushed]
      simp
    obtain ⟨begun, some_write⟩ := @ordered_beginWrite π
      { (connection.push sending).answer sending .success with blWriting := true }
      ordered.connected rfl free some_packet joined inOrder
    exact ⟨begun, fun _ => some_write⟩

/-- A write that completes without an error. -/
theorem Ordered.completed (ordered : connection.Ordered) {after : Connection π}
    (completes : connection.completed false = some after) :
    after.Ordered ∧ after.writes = [] ∧ connection.writes ≠ [] ∧ after.blWriting = true := by
  rw [Connection.completed] at completes
  cases writes : connection.writes with
  | nil => rw [writes] at completes; cases completes
  | cons sending rest =>
      rw [writes] at completes
      have single := ordered.single
      rw [writes, List.length_cons] at single
      have last : rest = [] := List.eq_nil_of_length_eq_zero (by omega)
      have flag := ordered.writing (by rw [writes]; exact List.cons_ne_nil _ _)
      subst last
      cases completes
      have flow : connection.flow = connection.written ++ [sending] ++ ([] ++ connection.sendPacketList) := by
        rw [Connection.flow, writes]
        simp
      have once := ordered.once
      have order := ordered.order
      rw [flow] at once order
      refine ⟨⟨ordered.connected, Nat.zero_le 1, fun some_write => absurd rfl some_write, nofun,
        ordered.idle, once, order⟩, rfl, List.cons_ne_nil _ _, flag⟩

/-- The thread that has completed a write begins the next, or finds the list empty. -/
theorem Ordered.next (ordered : connection.Ordered) (flag : connection.blWriting = true)
    (free : connection.writes = []) : connection.next.Ordered ∧
      (connection.next.blWriting = true → connection.next.writes ≠ []) := by
  rw [Connection.next]
  by_cases empty : connection.sendPacketList.isEmpty = true
  · rw [if_pos empty]
    refine ⟨⟨ordered.connected, ordered.single, fun some_write => absurd free some_write,
      ordered.held, fun _ => List.isEmpty_iff.mp empty, ordered.once, ordered.order⟩, nofun⟩
  · rw [if_neg empty]
    obtain ⟨begun, some_write⟩ := ordered_beginWrite ordered.connected flag free
      (fun none => empty (List.isEmpty_iff.mpr none)) ordered.once ordered.order
    exact ⟨begun, fun _ => some_write⟩

/-! ## The threads -/

/-- The call completes a write. -/
def Completes : ConnectionPoint π → Prop
  | .handleWrite _ => True
  | .next => True
  | .clear => True
  | _ => False

/-- A write has completed, and its completion has not been through the mutex. -/
def Pending (connection : Connection π) : Bool :=
  connection.blWriting && connection.writes.isEmpty

/-- A write is in flight until its completion has been through the mutex. -/
def InFlight (threads : Threads ι π) : Prop :=
  threads.shared.writes ≠ [] ∨
    ∃ thread point, threads.running thread = some point ∧ Completes point

/-- The call has met no error, and does not close. -/
def Connected : ConnectionPoint π → Prop
  | .handleWrite failed => failed = false
  | .clear => False
  | .close => False
  | _ => True

/-- What holds of the threads at a connection that stays connected. -/
structure Sound (threads : Threads ι π) : Prop where
  ordered : threads.shared.Ordered
  exclusive : Exclusive Pending Completes threads
  inFlight : threads.shared.blWriting = true → InFlight threads
  connected : ∀ thread point, threads.running thread = some point → Connected point

theorem pending_iff : connection.Pending = true ↔
    connection.blWriting = true ∧ connection.writes = [] := by
  rw [Pending, Bool.and_eq_true, List.isEmpty_iff]

theorem pending_of_writes (some_write : connection.writes ≠ []) : connection.Pending = false := by
  rw [Bool.eq_false_iff, ne_eq, pending_iff]
  exact fun ⟨_, free⟩ => some_write free

theorem sound_accepted : Sound (Threads.idle accepted : Threads ι π) :=
  ⟨ordered_accepted, exclusive_idle _, nofun, nofun⟩

variable [DecidableEq ι] {threads : Threads ι π} {thread : ι}

theorem connected_move (sound : Sound threads) {result : Connection π × Option (ConnectionPoint π)}
    (goes : ∀ point, result.2 = some point → Connected point) (other : ι)
    (point : ConnectionPoint π) (running : (threads.move thread result).running other = some point) :
    Connected point := by
  rcases Threads.move_running_iff.mp running with ⟨_, going⟩ | ⟨_, before⟩
  · exact goes point going
  · exact sound.connected other point before

/-- A thread that completes no write keeps the others sound. -/
theorem Sound.move (sound : Sound threads) {after : Connection π}
    {next : Option (ConnectionPoint π)} (ordered : after.Ordered)
    (outside : ∀ point, threads.running thread = some point → ¬ Completes point)
    (stays : ∀ point, next = some point → Connected point ∧ ¬ Completes point)
    (pending : threads.shared.Pending = true → after.Pending = true)
    (flying : after.blWriting = true → after.writes = [] → threads.shared.Pending = true) :
    Sound (threads.move thread (after, next)) := by
  refine ⟨ordered, ?_, fun writing => ?_, connected_move sound fun point going => (stays point going).1⟩
  · refine sound.exclusive.move (fun point going completes => ?_) fun wasPending => .inl ?_
    · exact absurd completes (stays point going).2
    · exact pending wasPending
  · by_cases free : after.writes = []
    · obtain ⟨flag, freeBefore⟩ := pending_iff.mp (flying writing free)
      rcases sound.inFlight flag with some_write | ⟨other, point, running, completes⟩
      · exact absurd freeBefore some_write
      · have different : other ≠ thread := by
          rintro rfl
          exact outside point running completes
        refine .inr ⟨other, point, ?_, completes⟩
        rw [Threads.move_running_of_ne _ _ different]
        exact running
    · exact .inl free

/-- A thread that leaves the connection as it is, and completes no write. -/
theorem Sound.unchanged (sound : Sound threads)
    (outside : ∀ point, threads.running thread = some point → ¬ Completes point)
    {next : Option (ConnectionPoint π)}
    (stays : ∀ point, next = some point → Connected point ∧ ¬ Completes point) :
    Sound (threads.move thread (threads.shared, next)) :=
  sound.move sound.ordered outside stays id fun writing free => pending_iff.mpr ⟨writing, free⟩

/-- A write completes, and a thread is told. -/
theorem Sound.complete (sound : Sound threads) {after : Connection π}
    (completes : threads.shared.completed false = some after) :
    Sound (threads.move thread (after, some (.handleWrite false))) := by
  obtain ⟨ordered, free, some_write, flag⟩ := sound.ordered.completed completes
  have notPending : threads.shared.Pending = false := pending_of_writes some_write
  refine ⟨ordered, ?_, fun _ => ?_, connected_move sound fun point going => ?_⟩
  · refine sound.exclusive.move (fun point _ _ => ⟨pending_iff.mpr ⟨flag, free⟩, .inl notPending⟩) ?_
    intro pending
    exact absurd (notPending.symm.trans pending) (by decide)
  · exact .inr ⟨thread, .handleWrite false, Threads.move_running_self .., trivial⟩
  · cases going
    exact rfl

/-- The thread that completes a write comes to the mutex. -/
theorem Sound.handleWrite (sound : Sound threads)
    (running : threads.running thread = some (.handleWrite false)) :
    Sound (threads.move thread (threads.shared, some .next)) := by
  have pending := sound.exclusive.taken thread _ running trivial
  refine ⟨sound.ordered, ?_, fun _ => ?_, connected_move sound fun point going => ?_⟩
  · exact sound.exclusive.move
      (fun point _ _ => ⟨pending, .inr ⟨_, running, trivial⟩⟩) fun _ => .inl pending
  · exact .inr ⟨thread, .next, Threads.move_running_self .., trivial⟩
  · cases going
    exact trivial

/-- The thread that completes a write has been through the mutex. -/
theorem Sound.next (sound : Sound threads) (running : threads.running thread = some .next) :
    Sound (threads.move thread (threads.shared.next, none)) := by
  obtain ⟨flag, free⟩ := pending_iff.mp (sound.exclusive.taken thread _ running trivial)
  obtain ⟨ordered, begun⟩ := sound.ordered.next flag free
  refine ⟨ordered, ?_, fun writing => .inl (begun writing), connected_move sound nofun⟩
  exact sound.exclusive.move nofun fun _ => .inr ⟨_, running, trivial⟩

/-- A send that has been through the mutex. -/
theorem Sound.send (sound : Sound threads) {sending : Sending π}
    (running : threads.running thread = some (.send sending)) :
    Sound (threads.move thread
      ((threads.shared.send sending).answer sending .success, none)) := by
  have shape := threads.shared.advance_send sending
  obtain ⟨ordered, begun⟩ := sound.ordered.send sending
  have outside : ∀ point, threads.running thread = some point → ¬ Completes point := by
    intro point same
    cases running.symm.trans same
    exact id
  refine sound.move ordered outside nofun (fun pending => ?_) fun _ free => ?_
  · rw [shape, if_pos (pending_iff.mp pending).1]
    exact pending
  · by_cases flag : threads.shared.blWriting = true
    · rw [shape, if_pos flag] at free
      exact pending_iff.mpr ⟨flag, free⟩
    · exact absurd free (begun flag)

/-! ## Every interleaving -/

/-- No write fails, and nobody closes the connection. -/
def Stays : Choice ι π → Prop
  | .call _ (.complete failed) => failed = false
  | .call _ .close => False
  | _ => True

instance : DecidablePred (Stays : Choice ι π → Prop)
  | .call _ (.complete failed) => inferInstanceAs (Decidable (failed = false))
  | .call _ .close => isFalse id
  | .call _ (.asyncSend _) => isTrue trivial
  | .advance _ _ => isTrue trivial

/-- A step keeps the threads sound. -/
theorem Sound.step (sound : Sound threads) {choice : Choice ι π} (stays : Stays choice) :
    Sound (program.step threads choice) := by
  rcases program.step_cases threads choice with
    ⟨unchanged, _⟩ | ⟨thread, call, rfl, idle⟩ | ⟨thread, input, point, rfl, running⟩
  · rw [unchanged]
    exact sound
  · have outside : ∀ point, threads.running thread = some point → ¬ Completes point := by
      intro point standing
      cases idle.symm.trans standing
    rw [Program.step_call idle]
    cases call with
    | close => exact stays.elim
    | asyncSend sending =>
        refine sound.unchanged outside fun point going => ?_
        cases going
        exact ⟨trivial, id⟩
    | complete failed =>
        cases (show failed = false from stays)
        change Sound (threads.move thread ((enter threads.shared (.complete false)).1,
          some (enter threads.shared (.complete false)).2))
        rw [enter]
        cases completes : threads.shared.completed false with
        | none =>
            refine sound.unchanged outside fun point going => ?_
            cases going
            exact ⟨trivial, id⟩
        | some after => exact sound.complete completes
  · have outside (stands : ¬ Completes point) :
        ∀ other, threads.running thread = some other → ¬ Completes other := by
      intro other standing
      cases running.symm.trans standing
      exact stands
    have connected := sound.connected thread point running
    rw [Program.step_advance running]
    change Sound (threads.move thread (threads.shared.advance point))
    rw [advance.eq_def]
    cases point with
    | asyncSend sending =>
        dsimp only
        rw [if_pos sound.ordered.connected]
        refine sound.unchanged (outside id) fun point going => ?_
        cases going
        exact ⟨trivial, id⟩
    | send sending => exact sound.send running
    | handleWrite failed =>
        cases (show failed = false from connected)
        dsimp only
        rw [sound.ordered.connected]
        exact sound.handleWrite running
    | next => exact sound.next running
    | clear => exact connected.elim
    | close => exact connected.elim
    | returned => exact sound.unchanged (outside id) nofun

/-- The packet that is being written stays in its place. -/
def Undisturbed (threads : Threads ι π) (choice : Choice ι π) : Prop :=
  threads.shared.writes ≠ [] →
    (program.step threads choice).shared.apPacket = threads.shared.apPacket

/-- Nothing but the beginning of a write changes the packet in its place, and that comes when no
other is in flight. -/
theorem Sound.undisturbed (sound : Sound threads) (choice : Choice ι π) :
    Undisturbed threads choice := by
  intro some_write
  rcases program.step_cases threads choice with
    ⟨unchanged, _⟩ | ⟨thread, call, rfl, idle⟩ | ⟨thread, input, point, rfl, running⟩
  · rw [unchanged]
  · rw [Program.step_call idle]
    cases call with
    | asyncSend sending => rfl
    | close => rfl
    | complete failed =>
        change (enter threads.shared (.complete failed)).1.apPacket = _
        rw [enter, completed]
        cases threads.shared.writes <;> rfl
  · rw [Program.step_advance running]
    change (threads.shared.advance point).1.apPacket = _
    have connected := sound.connected thread point running
    rw [advance.eq_def]
    cases point with
    | asyncSend sending =>
        dsimp only
        rw [if_pos sound.ordered.connected]
    | send sending =>
        dsimp only
        rw [advance_send, if_pos (sound.ordered.writing some_write)]
        rfl
    | handleWrite failed =>
        cases (show failed = false from connected)
        dsimp only
        rw [sound.ordered.connected]
        rfl
    | next =>
        have pending := sound.exclusive.taken thread _ running trivial
        exact absurd (pending_iff.mp pending).2 some_write
    | clear => rfl
    | close => rfl
    | returned => rfl

omit [DecidableEq ι]

/-- At most one write is in flight, of the packet in its place; every packet that was accepted is
written, being written or in the list, once, those of normal priority in the order in which they
got the mutex; and when no write is in flight the list is empty and every one is written. -/
structure SendsOnce (threads : Threads ι π) : Prop where
  single : threads.shared.writes.length ≤ 1
  held : ∀ sending ∈ threads.shared.writes, threads.shared.apPacket = some sending
  once : threads.shared.flow.Perm threads.shared.successes
  order : normal threads.shared.flow = normal threads.shared.successes
  rest : ¬ InFlight threads → threads.shared.sendPacketList = [] ∧
    threads.shared.written.Perm threads.shared.successes

theorem Sound.sendsOnce (sound : Sound threads) : SendsOnce threads := by
  refine ⟨sound.ordered.single, sound.ordered.held, sound.ordered.once, sound.ordered.order,
    fun rest => ?_⟩
  have idle : threads.shared.blWriting = false := by
    rw [Bool.eq_false_iff]
    exact fun writing => rest (sound.inFlight writing)
  have empty := sound.ordered.idle idle
  have free : threads.shared.writes = [] := by
    by_contra some_write
    exact rest (.inl some_write)
  have once := sound.ordered.once
  rw [flow, free, empty, List.append_nil, List.append_nil] at once
  exact ⟨empty, once⟩

end Connection

open Connection

variable {ι π : Type} [DecidableEq ι]

/-- **Every packet is sent once**, in every interleaving of senders and completions at a connection
that stays connected. -/
theorem sends_once {choices : List (Choice ι π)} (stays : ∀ choice ∈ choices, Stays choice) :
    Run.Always program.step SendsOnce Undisturbed (Threads.idle accepted) choices :=
  Run.always_of_steps Sound (fun _ sound => sound.sendsOnce)
    (fun _ choice sound stays => ⟨sound.undisturbed choice, sound.step stays⟩) sound_accepted
    (Run.steps_of_forall (fun choice member _ => stays choice member) _)

/-- Two threads send, and the second packet waits for the completion of the first. -/
theorem sends_once_two_threads :
    Run.Always program.step SendsOnce Undisturbed (Threads.idle (accepted : Connection Nat))
      [.call 1 (.asyncSend ⟨7, false⟩), .call 2 (.asyncSend ⟨8, true⟩), .advance 1 (),
        .advance 2 (), .advance 1 (), .advance 2 (), .call 3 (.complete false), .advance 3 (),
        .advance 3 ()] :=
  sends_once (by decide)

end Cube.Fndnet
