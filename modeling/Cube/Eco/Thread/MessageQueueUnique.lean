import Cube.Lib.Latest
import Cube.Eco.Thread.MessageQueueOrder

/-! # Unique messages

`post_unique` looks for a message with the key of its own and replaces it. Where it finds none
in a full queue it waits for space and then stores its message without looking again. The
messages stored are unique, and the latest of their key, exactly as long as no message of the
same key is stored when such a wait ends.
-/

namespace Cube.Eco.Thread.MessageQueue

open Latest

variable {ι μ κ : Type} {key : μ → κ} {record : Record ι μ}

/-- Replacing a message by one of the same key leaves the keys as they are. -/
theorem map_set_of_key_eq {messages : List μ} {index : Nat} {message : μ}
    (bound : index < messages.length) (same : key messages[index] = key message) :
    (messages.set index message).map key = messages.map key := by
  have inside : index < (messages.map key).length := by rwa [List.length_map]
  rw [List.map_set, ← same, ← List.getElem_map key (h := inside), List.set_getElem_self inside]

variable [DecidableEq κ]

/-- The checker that recognises the messages with the key of the message being posted. -/
def equalKeys (key : μ → κ) (message stored : μ) : Bool := key stored = key message

namespace Record

/-- No two stored messages have the same key, and each is the latest one accepted with its
key. -/
structure Unique (key : μ → κ) (record : Record ι μ) : Prop where
  nodup : (record.queue.deque.map key).Nodup
  latest_eq : ∀ message ∈ record.queue.deque,
    latest key (key message) record.accepted = some message

theorem new_unique (key : μ → κ) (capacity : UInt32) :
    (new capacity : Record ι μ).Unique key := ⟨List.nodup_nil, nofun⟩

theorem Unique.of_sublist (unique : record.Unique key) {queue : MessageQueue ι μ}
    (sublist : queue.deque.Sublist record.queue.deque) (results : List (Option μ)) :
    (⟨queue, record.accepted, results⟩ : Record ι μ).Unique key :=
  ⟨unique.nodup.sublist (sublist.map key),
    fun message stored => unique.latest_eq message (sublist.subset stored)⟩

/-- What has been accepted may stand anywhere, and the other messages were there before. -/
theorem Unique.accept (unique : record.Unique key) {queue : MessageQueue ι μ} {message : μ}
    (nodup : (queue.deque.map key).Nodup) (stored : message ∈ queue.deque)
    (others : ∀ other ∈ queue.deque, other ∈ record.queue.deque ∨ other = message) :
    (⟨queue, record.accepted ++ [message], record.results⟩ : Record ι μ).Unique key := by
  refine ⟨nodup, fun other present => ?_⟩
  by_cases same : key message = key other
  · obtain rfl := List.inj_on_of_nodup_map nodup stored present same
    exact latest_append_self record.accepted message
  · have before : other ∈ record.queue.deque :=
      (others other present).resolve_right fun equal => same (equal ▸ rfl)
    rw [latest_append_of_ne same]
    exact unique.latest_eq other before

/-- A post in a queue with a message of the same key would make two of them; otherwise it keeps
the messages unique. -/
theorem Unique.rawPost (unique : record.Unique key) (thread : ι) (message : μ) (pick : Nat)
    (fresh : record.queue.isFull = false → ∀ stored ∈ record.queue.deque,
      key stored ≠ key message) :
    (record.posts message (record.queue.rawPost thread message pick)).1.Unique key := by
  rcases rawPost_cases record.queue thread message pick with ⟨_, waits⟩ | ⟨space, stores⟩
  · rw [posts, waits]
    refine unique.of_sublist ?_ _
    exact List.Sublist.refl _
  · rw [posts, stores]
    refine unique.accept ?_ (List.mem_append_right _ List.mem_cons_self) ?_
    · rw [List.map_append]
      refine List.nodup_append.mpr ⟨unique.nodup, List.nodup_singleton _, ?_⟩
      rintro _ present _ last rfl
      obtain ⟨stored, storedHere, same⟩ := List.mem_map.mp present
      exact fresh space stored storedHere (same.trans (List.mem_singleton.mp last))
    · intro other present
      exact (List.mem_append.mp present).imp_right List.mem_singleton.mp

theorem Unique.postUnique (unique : record.Unique key) (thread : ι) (message : μ) (pick : Nat) :
    (record.posts message
      (record.queue.postUnique (equalKeys key message) thread message pick)).1.Unique key := by
  unfold MessageQueue.postUnique
  split
  case h_1 index found =>
    obtain ⟨bound, same, _⟩ := List.findIdx?_eq_some_iff_getElem.mp found
    refine unique.accept ?_ (List.mem_set bound message) ?_
    · rw [map_set_of_key_eq bound (of_decide_eq_true same)]
      exact unique.nodup
    · exact fun other present => List.mem_or_eq_of_mem_set present
  case h_2 absent =>
    refine unique.rawPost thread message pick fun _ stored present same => ?_
    have differs := List.findIdx?_eq_none_iff.mp absent stored present
    exact absurd (decide_eq_true same) (ne_true_of_eq_false differs)

theorem Unique.pop (unique : record.Unique key) (thread : ι) (pick : Nat) :
    (record.pops (record.queue.pop thread pick)).1.Unique key := by
  rcases pop_cases record.queue thread pick with
    ⟨_, _, refuses⟩ | ⟨_, _, waits⟩ | ⟨message, deque, stored, takes⟩
  · rw [pops, refuses]
    refine unique.of_sublist ?_ _
    exact List.Sublist.refl _
  · rw [pops, waits]
    refine unique.of_sublist ?_ _
    exact List.Sublist.refl _
  · rw [pops, takes]
    refine unique.of_sublist ?_ _
    rw [stored]
    exact List.sublist_cons_self message deque

end Record

/-! ## Every interleaving -/

variable [DecidableEq ι] {threads : Threads ι μ} {choice : Choice ι μ}

/-- When a thread that waited for space goes on and there is space, no message with the key of
its own is stored. -/
def GoesOnAlone (key : μ → κ) (threads : Threads ι μ) (choice : Choice ι μ) : Prop :=
  ∀ thread pick message, choice = .advance thread (.locks pick) →
    threads.running thread = some (.rawPost message) → ¬ threads.shared.queue.Asleep thread →
    threads.shared.queue.isFull = false →
    ∀ stored ∈ threads.shared.queue.deque, key stored ≠ key message

theorem unique_step (unique : threads.shared.Unique key) (alone : GoesOnAlone key threads choice) :
    ((program (equalKeys key)).step threads choice).shared.Unique key := by
  refine Interleaving.Program.step_shared _ unique (fun _ _ _ => unique)
    fun thread input operation chosen running => ?_
  cases input with
  | wakesUp =>
      refine unique.of_sublist ?_ _
      exact List.Sublist.refl _
  | locks pick =>
      by_cases asleep : threads.shared.queue.Asleep thread
      · rw [advance_asleep asleep]
        exact unique
      · rw [advance_locks asleep]
        cases operation with
        | rawPost message =>
            exact unique.rawPost thread message pick
              (alone thread pick message chosen running asleep)
        | postUnique message => exact unique.postUnique thread message pick
        | pop => exact unique.pop thread pick
        | close =>
            refine unique.of_sublist ?_ _
            rw [rawClose_deque]

/-- A message stored beside one of the same key is not the only one of its key. -/
theorem not_unique_of_step (hindered : ¬ GoesOnAlone key threads choice) :
    ¬ ((program (equalKeys key)).step threads choice).shared.Unique key := by
  unfold GoesOnAlone at hindered
  push Not at hindered
  obtain ⟨thread, pick, message, rfl, running, awake, space, stored, present, same⟩ := hindered
  intro unique
  have nodup := unique.nodup
  rw [Interleaving.Program.step_advance running, advance_locks awake] at nodup
  rcases rawPost_cases threads.shared.queue thread message pick with ⟨full, _⟩ | ⟨_, stores⟩
  · exact absurd (space.symm.trans full) Bool.false_ne_true
  · change ((Record.posts _ _ _).1.queue.deque.map key).Nodup at nodup
    rw [Record.posts, stores] at nodup
    change ((threads.shared.queue.deque ++ [message]).map key).Nodup at nodup
    rw [List.map_append] at nodup
    exact (List.nodup_append.mp nodup).2.2 (key message)
      (List.mem_map.mpr ⟨stored, present, same⟩) (key message) List.mem_cons_self rfl

/-- **When messages are unique.** In an interleaving of calls on a queue, the stored messages
have different keys and are the latest of their keys at every moment exactly when every thread
that goes on after it waited for space finds no message of its key. -/
theorem messages_unique_iff (key : μ → κ) (capacity : UInt32) (choices : List (Choice ι μ)) :
    Run.Always (program (equalKeys key)).step (fun threads => threads.shared.Unique key)
        (fun _ _ => True) (start capacity) choices ↔
      Run.Steps (program (equalKeys key)).step (GoesOnAlone key) (start capacity) choices :=
  Run.always_iff_steps (fun threads : Threads ι μ => threads.shared.Unique key)
    (fun _ unique => unique)
    (fun _ _ unique alone => ⟨trivial, unique_step unique alone⟩)
    (fun _ _ _ hindered both => not_unique_of_step hindered both.2)
    (Record.new_unique key capacity) choices

/-- Thread 2 fills a queue of capacity 2; threads 0 and 1 wait for space with messages of the
same key, and once thread 2 has popped twice both of them store theirs. -/
def bothWaited : List (Choice Nat (Nat × Nat)) :=
  [.call 2 (.postUnique (1, 0)), .advance 2 (.locks 0),
    .call 2 (.postUnique (2, 0)), .advance 2 (.locks 0),
    .call 0 (.postUnique (7, 1)), .advance 0 (.locks 0),
    .call 1 (.postUnique (7, 2)), .advance 1 (.locks 0),
    .call 2 .pop, .advance 2 (.locks 0), .call 2 .pop, .advance 2 (.locks 0),
    .advance 0 (.locks 0), .advance 1 (.locks 0)]

theorem messages_not_unique :
    ¬ Run.Always (program (equalKeys (Prod.fst : Nat × Nat → Nat))).step
      (fun threads => threads.shared.Unique Prod.fst) (fun _ _ => True) (start 2) bothWaited :=
  fun always => absurd always.final.nodup (by decide)

end Cube.Eco.Thread.MessageQueue
