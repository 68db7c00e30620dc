import Mathlib.Data.List.Perm.Basic
import Mathlib.Logic.Function.Basic

/-! # Pools of identifiers

An identifier that was handed out is in use, free to be handed out again, or on its way: held by
a thread that got it and has not put it to use. None is in two of these places, and none is
lost.
-/

namespace IdPool

variable {ι α : Type}

/-- The identifiers handed out are those in use, those that are free and those that a thread
holds, each in one place. -/
structure Conserved (inUse : α → Prop) (free : List α) (held : ι → Option α)
    (handedOut : List α) : Prop where
  nodup : free.Nodup
  once : handedOut.Nodup
  unused : ∀ id ∈ free, ¬ inUse id
  onItsWay : ∀ thread id, held thread = some id → ¬ inUse id ∧ id ∉ free
  single : ∀ thread other id, held thread = some id → held other = some id → thread = other
  covers : ∀ id, id ∈ handedOut ↔ inUse id ∨ id ∈ free ∨ ∃ thread, held thread = some id

theorem conserved_start : Conserved (fun _ : α => False) [] (fun _ : ι => none) [] where
  nodup := List.nodup_nil
  once := List.nodup_nil
  unused := nofun
  onItsWay := nofun
  single := nofun
  covers id := by simp only [List.not_mem_nil, false_or, reduceCtorEq, exists_false]

variable {inUse : α → Prop} {free handedOut : List α} {held : ι → Option α}

/-- What is in use matters only up to equivalence. -/
theorem Conserved.congr (conserved : Conserved inUse free held handedOut) {used : α → Prop}
    (same : ∀ id, used id ↔ inUse id) : Conserved used free held handedOut := by
  rwa [show used = inUse from funext fun id => propext (same id)]

section Update

variable [DecidableEq ι] {thread : ι}

theorem update_eq_some {value : Option α} {other : ι} {id : α} :
    Function.update held thread value other = some id ↔
      (other = thread ∧ value = some id) ∨ (other ≠ thread ∧ held other = some id) := by
  by_cases same : other = thread
  · subst same
    simp only [Function.update_self, true_and, ne_eq, not_true_eq_false, false_and, or_false]
  · simp only [Function.update_of_ne same, same, false_and, ne_eq, not_false_eq_true, true_and,
      false_or]

/-- Who holds an identifier after a thread let go of its own held it before. -/
theorem held_of_update_none {other : ι} {id : α}
    (holds : Function.update held thread none other = some id) :
    other ≠ thread ∧ held other = some id := by
  rcases update_eq_some.mp holds with ⟨_, ⟨⟩⟩ | kept
  exact kept

/-- A thread may take hold of an identifier that nobody holds. -/
theorem single_update {id : α} (unheld : ∀ other, held other ≠ some id)
    (single : ∀ first second found, held first = some found → held second = some found →
      first = second) (first second : ι) (found : α)
    (holdsFirst : Function.update held thread (some id) first = some found)
    (holdsSecond : Function.update held thread (some id) second = some found) :
    first = second := by
  rcases update_eq_some.mp holdsFirst with ⟨rfl, ⟨⟩⟩ | ⟨_, before⟩
  · rcases update_eq_some.mp holdsSecond with ⟨rfl, _⟩ | ⟨_, beforeSecond⟩
    · rfl
    · exact absurd beforeSecond (unheld second)
  · rcases update_eq_some.mp holdsSecond with ⟨_, ⟨⟩⟩ | ⟨_, beforeSecond⟩
    · exact absurd before (unheld first)
    · exact single first second found before beforeSecond

/-- What an idle thread takes hold of is held, besides what was held. -/
theorem exists_update {id : α} (idle : held thread = none) (other : α) :
    (∃ holder, Function.update held thread (some id) holder = some other) ↔
      other = id ∨ ∃ holder, held holder = some other := by
  constructor
  · rintro ⟨holder, holds⟩
    rcases update_eq_some.mp holds with ⟨_, ⟨⟩⟩ | ⟨_, before⟩
    · exact .inl rfl
    · exact .inr ⟨holder, before⟩
  · rintro (rfl | ⟨holder, holds⟩)
    · exact ⟨thread, Function.update_self ..⟩
    · refine ⟨holder, update_eq_some.mpr (.inr ⟨?_, holds⟩)⟩
      rintro rfl
      rw [idle] at holds
      cases holds

/-- What a thread holds and what is held after it let go of it is what was held. -/
theorem exists_update_none {id : α} (holds : held thread = some id) (other : α) :
    (∃ holder, held holder = some other) ↔
      other = id ∨ ∃ holder, Function.update held thread none holder = some other := by
  constructor
  · rintro ⟨holder, holdsOther⟩
    by_cases same : holder = thread
    · subst same
      exact .inl (Option.some.inj (holdsOther.symm.trans holds))
    · exact .inr ⟨holder, update_eq_some.mpr (.inr ⟨same, holdsOther⟩)⟩
  · rintro (rfl | ⟨holder, holdsOther⟩)
    · exact ⟨thread, holds⟩
    · exact ⟨holder, (held_of_update_none holdsOther).2⟩

/-- A thread that holds nothing takes a free identifier. -/
theorem Conserved.take {id : α} (conserved : Conserved inUse (id :: free) held handedOut)
    (idle : held thread = none) :
    Conserved inUse free (Function.update held thread (some id)) handedOut := by
  obtain ⟨absent, nodup⟩ := List.nodup_cons.mp conserved.nodup
  have unheld (other : ι) : held other ≠ some id := fun holds =>
    (conserved.onItsWay other id holds).2 List.mem_cons_self
  constructor
  · exact nodup
  · exact conserved.once
  · exact fun other member => conserved.unused other (List.mem_cons_of_mem _ member)
  · intro other found holds
    rcases update_eq_some.mp holds with ⟨_, ⟨⟩⟩ | ⟨_, before⟩
    · exact ⟨conserved.unused id List.mem_cons_self, absent⟩
    · obtain ⟨unused, notFree⟩ := conserved.onItsWay other found before
      exact ⟨unused, fun member => notFree (List.mem_cons_of_mem _ member)⟩
  · exact single_update unheld conserved.single
  · intro other
    rw [conserved.covers other, List.mem_cons, exists_update idle, or_assoc]
    exact or_congr_right or_left_comm

/-- A thread that holds nothing takes an identifier out of use. -/
theorem Conserved.withdraw {id : α} (conserved : Conserved inUse free held handedOut)
    (idle : held thread = none) (used : inUse id) :
    Conserved (fun other => other ≠ id ∧ inUse other) free
      (Function.update held thread (some id)) handedOut := by
  have unheld (other : ι) : held other ≠ some id := fun holds =>
    (conserved.onItsWay other id holds).1 used
  constructor
  · exact conserved.nodup
  · exact conserved.once
  · exact fun other member stillUsed => conserved.unused other member stillUsed.2
  · intro other found holds
    rcases update_eq_some.mp holds with ⟨_, ⟨⟩⟩ | ⟨_, before⟩
    · exact ⟨fun stillUsed => stillUsed.1 rfl, fun member => conserved.unused id member used⟩
    · obtain ⟨unused, notFree⟩ := conserved.onItsWay other found before
      exact ⟨fun stillUsed => unused stillUsed.2, notFree⟩
  · exact single_update unheld conserved.single
  · intro other
    rw [conserved.covers other, exists_update idle]
    by_cases same : other = id
    · simp only [same, used, ne_eq, not_true_eq_false, true_or, or_true]
    · simp only [same, ne_eq, not_false_eq_true, true_and, false_or]

/-- A thread puts the identifier it holds to use. -/
theorem Conserved.store {id : α} (conserved : Conserved inUse free held handedOut)
    (holds : held thread = some id) :
    Conserved (fun other => other = id ∨ inUse other) free (Function.update held thread none)
      handedOut := by
  constructor
  · exact conserved.nodup
  · exact conserved.once
  · rintro other member (rfl | used)
    · exact (conserved.onItsWay thread other holds).2 member
    · exact conserved.unused other member used
  · intro other found holdsFound
    obtain ⟨apart, kept⟩ := held_of_update_none holdsFound
    obtain ⟨unused, notFree⟩ := conserved.onItsWay other found kept
    refine ⟨?_, notFree⟩
    rintro (rfl | used)
    · exact apart (conserved.single other thread found kept holds)
    · exact unused used
  · exact fun first second found holdsFirst holdsSecond =>
      conserved.single first second found (held_of_update_none holdsFirst).2
        (held_of_update_none holdsSecond).2
  · intro other
    rw [conserved.covers other, exists_update_none holds, or_assoc]
    exact (or_congr_right or_left_comm).trans or_left_comm

/-- A thread frees the identifier it holds. -/
theorem Conserved.release {id : α} (conserved : Conserved inUse free held handedOut)
    (holds : held thread = some id) :
    Conserved inUse (id :: free) (Function.update held thread none) handedOut := by
  obtain ⟨unusedHere, notFreeHere⟩ := conserved.onItsWay thread id holds
  constructor
  · exact List.nodup_cons.mpr ⟨notFreeHere, conserved.nodup⟩
  · exact conserved.once
  · intro other member
    rcases List.mem_cons.mp member with rfl | before
    · exact unusedHere
    · exact conserved.unused other before
  · intro other found holdsFound
    obtain ⟨apart, kept⟩ := held_of_update_none holdsFound
    obtain ⟨unused, notFree⟩ := conserved.onItsWay other found kept
    refine ⟨unused, fun member => ?_⟩
    rcases List.mem_cons.mp member with rfl | before
    · exact apart (conserved.single other thread found kept holds)
    · exact notFree before
  · exact fun first second found holdsFirst holdsSecond =>
      conserved.single first second found (held_of_update_none holdsFirst).2
        (held_of_update_none holdsSecond).2
  · intro other
    rw [conserved.covers other, exists_update_none holds, List.mem_cons, or_assoc]
    exact or_congr_right or_left_comm

/-- A thread that holds nothing frees an identifier that is in use. -/
theorem Conserved.recycle {id : α} (conserved : Conserved inUse free held handedOut)
    (idle : held thread = none) (used : inUse id) :
    Conserved (fun other => other ≠ id ∧ inUse other) (id :: free) held handedOut := by
  have freed := (conserved.withdraw idle used).release (Function.update_self ..)
  rwa [Function.update_idem, ← idle, Function.update_eq_self] at freed

end Update

/-- An identifier that was never handed out is as good as a free one. -/
theorem Conserved.fresh {id : α} (conserved : Conserved inUse free held handedOut)
    (new : id ∉ handedOut) : Conserved inUse (id :: free) held (id :: handedOut) := by
  have nowhere : ¬ (inUse id ∨ id ∈ free ∨ ∃ thread, held thread = some id) :=
    fun somewhere => new ((conserved.covers id).mpr somewhere)
  push Not at nowhere
  obtain ⟨unused, notFree, unheld⟩ := nowhere
  constructor
  · exact List.nodup_cons.mpr ⟨notFree, conserved.nodup⟩
  · exact List.nodup_cons.mpr ⟨new, conserved.once⟩
  · intro other member
    rcases List.mem_cons.mp member with rfl | before
    · exact unused
    · exact conserved.unused other before
  · intro other found holds
    obtain ⟨foundUnused, foundNotFree⟩ := conserved.onItsWay other found holds
    refine ⟨foundUnused, fun member => ?_⟩
    rcases List.mem_cons.mp member with rfl | before
    · exact unheld other holds
    · exact foundNotFree before
  · exact conserved.single
  · intro other
    rw [List.mem_cons, List.mem_cons, conserved.covers other]
    exact or_left_comm.trans (or_congr_right or_assoc.symm)

/-- While no thread holds an identifier, those in use and those that are free are those that
were handed out. -/
theorem Conserved.perm (conserved : Conserved inUse free held handedOut)
    (idle : ∀ thread, held thread = none) {used : List α} (nodup : used.Nodup)
    (same : ∀ id, id ∈ used ↔ inUse id) : (used ++ free).Perm handedOut := by
  refine (List.perm_ext_iff_of_nodup ?_ conserved.once).mpr fun id => ?_
  · refine List.nodup_append.mpr ⟨nodup, conserved.nodup, ?_⟩
    rintro id member _ isFree rfl
    exact conserved.unused id isFree ((same id).mp member)
  · rw [List.mem_append, same, conserved.covers]
    simp only [idle, reduceCtorEq, exists_false, or_false]

end IdPool
