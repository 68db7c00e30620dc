import Mathlib.Algebra.BigOperators.Group.Finset.Piecewise
import Mathlib.Algebra.Order.BigOperators.Group.Finset
import Mathlib.Data.Fintype.BigOperators
import Cube.Lib.Interleaving

/-! # Tallies of threads

How many threads stand at points of a kind is a sum over the threads. A step of one thread
changes a tally by what that thread's own point weighed before and weighs after, so what an
interleaving keeps between tallies and the shared state is arithmetic about one thread.
-/

namespace Interleaving

variable {ι σ ο : Type}

/-- What the point of a thread weighs; a thread in no call weighs nothing. -/
def weigh (weight : ο → Nat) : Option ο → Nat
  | none => 0
  | some operation => weight operation

@[simp] theorem weigh_none (weight : ο → Nat) : weigh weight none = 0 := rfl

@[simp] theorem weigh_some (weight : ο → Nat) (operation : ο) :
    weigh weight (some operation) = weight operation := rfl

variable [Fintype ι]

/-- The weights of all threads together. -/
def Threads.tally (weight : ο → Nat) (threads : Threads ι σ ο) : Nat :=
  ∑ thread, weigh weight (threads.running thread)

@[simp] theorem Threads.tally_idle (weight : ο → Nat) (shared : σ) :
    (idle shared : Threads ι σ ο).tally weight = 0 :=
  Finset.sum_eq_zero fun _ _ => rfl

variable {threads : Threads ι σ ο} {weight : ο → Nat}

/-- **Tallies of a step.** Only the weight of the thread that moves changes. -/
theorem Threads.tally_move [DecidableEq ι] (weight : ο → Nat) (threads : Threads ι σ ο)
    (thread : ι) (result : σ × Option ο) :
    (threads.move thread result).tally weight + weigh weight (threads.running thread) =
      threads.tally weight + weigh weight result.2 := by
  have others : ∑ other ∈ Finset.univ.erase thread,
      weigh weight ((threads.move thread result).running other) =
        ∑ other ∈ Finset.univ.erase thread, weigh weight (threads.running other) :=
    Finset.sum_congr rfl fun other member => by
      rw [move_running_of_ne _ _ (Finset.ne_of_mem_erase member)]
  have after := Finset.add_sum_erase Finset.univ
    (fun other => weigh weight ((threads.move thread result).running other))
    (Finset.mem_univ thread)
  have before := Finset.add_sum_erase Finset.univ
    (fun other => weigh weight (threads.running other)) (Finset.mem_univ thread)
  rw [move_running_self, others] at after
  rw [tally, tally, ← after, ← before]
  omega

/-- The weight of the others stays as it is when a thread moves. -/
theorem Threads.exists_rest [DecidableEq ι] (weight : ο → Nat) (threads : Threads ι σ ο)
    (thread : ι) :
    ∃ rest, threads.tally weight = rest + weigh weight (threads.running thread) ∧
      ∀ result : σ × Option ο,
        (threads.move thread result).tally weight = rest + weigh weight result.2 := by
  refine ⟨threads.tally weight - weigh weight (threads.running thread), ?_, fun result => ?_⟩
  · have moved := tally_move weight threads thread (threads.shared, none)
    rw [weigh_none] at moved
    omega
  · have moved := tally_move weight threads thread result
    have left := tally_move weight threads thread (threads.shared, none)
    rw [weigh_none] at left
    omega

/-- No thread weighs more than all of them. -/
theorem Threads.weight_le_tally (weight : ο → Nat) {thread : ι} {operation : ο}
    (running : threads.running thread = some operation) :
    weight operation ≤ threads.tally weight := by
  have part := Finset.single_le_sum
    (f := fun thread => weigh weight (threads.running thread))
    (fun _ _ => Nat.zero_le _) (Finset.mem_univ thread)
  simp only [running] at part
  exact part

theorem Threads.tally_eq_zero
    (light : ∀ thread operation, threads.running thread = some operation → weight operation = 0) :
    threads.tally weight = 0 := by
  apply Finset.sum_eq_zero
  intro thread _
  cases running : threads.running thread with
  | none => rfl
  | some operation => exact light thread operation running

theorem Threads.tally_le_tally {second : ο → Nat} (le : ∀ operation, weight operation ≤
    second operation) (threads : Threads ι σ ο) :
    threads.tally weight ≤ threads.tally second := by
  apply Finset.sum_le_sum
  intro thread _
  cases threads.running thread with
  | none => exact Nat.le_refl 0
  | some operation => exact le operation

/-- What weighs something, some thread brings. -/
theorem Threads.exists_of_tally (some : threads.tally weight ≠ 0) :
    ∃ thread operation, threads.running thread = .some operation ∧ weight operation ≠ 0 := by
  by_contra nobody
  refine some (tally_eq_zero fun thread operation running => ?_)
  by_contra heavy
  exact nobody ⟨thread, operation, running, heavy⟩

end Interleaving
