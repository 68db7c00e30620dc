import Mathlib.Data.List.Induction

/-! # Runs of a deterministic machine

A machine takes one input after the other. What holds of every state it reaches and of
every step it takes is established from an invariant, and where the invariant is lost as
soon as a step is not good, it holds exactly when every step is good.
-/

namespace Run

variable {σ ι : Type} (step : σ → ι → σ) {good : σ → ι → Prop}

/-- The state after a list of inputs. -/
def final : σ → List ι → σ
  | state, [] => state
  | state, input :: inputs => final (step state input) inputs

/-- Every state on the way satisfies `holds`, and every step taken is `allowed`. -/
def Always (holds : σ → Prop) (allowed : σ → ι → Prop) : σ → List ι → Prop
  | state, [] => holds state
  | state, input :: inputs =>
      holds state ∧ allowed state input ∧ Always holds allowed (step state input) inputs

/-- Every step taken is `good`. -/
def Steps (good : σ → ι → Prop) : σ → List ι → Prop
  | _, [] => True
  | state, input :: inputs => good state input ∧ Steps good (step state input) inputs

instance decidableSteps [∀ state input, Decidable (good state input)] :
    ∀ state inputs, Decidable (Steps step good state inputs)
  | _, [] => isTrue trivial
  | state, input :: inputs =>
      have := decidableSteps (step state input) inputs
      inferInstanceAs (Decidable (good state input ∧ Steps step good (step state input) inputs))

variable {step} {holds : σ → Prop} {allowed : σ → ι → Prop}

/-- What always holds, holds at the first state. -/
theorem Always.head {state : σ} {inputs : List ι}
    (always : Always step holds allowed state inputs) : holds state := by
  cases inputs with
  | nil => exact always
  | cons input inputs => exact always.1

/-- What always holds, holds at the last state. -/
theorem Always.final {state : σ} {inputs : List ι}
    (always : Always step holds allowed state inputs) : holds (final step state inputs) := by
  induction inputs generalizing state with
  | nil => exact always
  | cons input inputs ih => exact ih always.2.2

/-- What follows from what always holds, always holds. -/
theorem Always.imp {state : σ} {inputs : List ι} {weaker : σ → Prop}
    (always : Always step holds allowed state inputs) (implies : ∀ state, holds state → weaker state) :
    Always step weaker allowed state inputs := by
  induction inputs generalizing state with
  | nil => exact implies state always
  | cons input inputs ih => exact ⟨implies state always.1, always.2.1, ih always.2.2⟩

/-- What always holds, always holds from any state on the way. -/
theorem Always.drop {state : σ} {first second : List ι}
    (always : Always step holds allowed state (first ++ second)) :
    Always step holds allowed (Run.final step state first) second := by
  induction first generalizing state with
  | nil => exact always
  | cons input first ih => exact ih always.2.2

/-- What always holds along one run and along a run from its end, always holds along both. -/
theorem Always.append {state : σ} {first second : List ι}
    (before : Always step holds allowed state first)
    (after : Always step holds allowed (Run.final step state first) second) :
    Always step holds allowed state (first ++ second) := by
  induction first generalizing state with
  | nil => exact after
  | cons input first ih => exact ⟨before.1, before.2.1, ih before.2.2 after⟩

/-- Steps that are all good are good from any state on the way. -/
theorem Steps.drop {state : σ} {first second : List ι}
    (steps : Steps step good state (first ++ second)) :
    Steps step good (Run.final step state first) second := by
  induction first generalizing state with
  | nil => exact steps
  | cons input first ih => exact ih steps.2

/-- Inputs that are good in every state make good steps. -/
theorem steps_of_forall {inputs : List ι} (all : ∀ input ∈ inputs, ∀ state, good state input)
    (state : σ) : Steps step good state inputs := by
  induction inputs generalizing state with
  | nil => trivial
  | cons input inputs ih =>
      exact ⟨all input List.mem_cons_self state,
        ih (fun input member => all input (List.mem_cons_of_mem _ member)) (step state input)⟩

/-- **Invariants of runs.** An invariant that good steps keep makes everything hold along a
run of good steps. -/
theorem always_of_steps (invariant : σ → Prop)
    (sound : ∀ state, invariant state → holds state)
    (kept : ∀ state input, invariant state → good state input →
      allowed state input ∧ invariant (step state input))
    {state : σ} (initial : invariant state) {inputs : List ι}
    (steps : Steps step good state inputs) : Always step holds allowed state inputs := by
  induction inputs generalizing state with
  | nil => exact sound state initial
  | cons input inputs ih =>
      obtain ⟨goodStep, later⟩ := steps
      obtain ⟨stepAllowed, next⟩ := kept state input initial goodStep
      exact ⟨sound state initial, stepAllowed, ih next later⟩

/-- What every step keeps, a run keeps. -/
theorem final_of_kept (invariant : σ → Prop)
    (kept : ∀ state input, invariant state → invariant (step state input))
    {state : σ} (initial : invariant state) (inputs : List ι) :
    invariant (Run.final step state inputs) := by
  induction inputs generalizing state with
  | nil => exact initial
  | cons input inputs ih => exact ih (kept state input initial)

/-- **Exact conditions for runs.** Where, besides, a step that is not good breaks what should
hold, everything holds along a run exactly when all of its steps are good. -/
theorem always_iff_steps (invariant : σ → Prop)
    (sound : ∀ state, invariant state → holds state)
    (kept : ∀ state input, invariant state → good state input →
      allowed state input ∧ invariant (step state input))
    (broken : ∀ state input, invariant state → ¬ good state input →
      ¬ (allowed state input ∧ holds (step state input)))
    {state : σ} (initial : invariant state) (inputs : List ι) :
    Always step holds allowed state inputs ↔ Steps step good state inputs := by
  refine ⟨fun always => ?_, always_of_steps invariant sound kept initial⟩
  induction inputs generalizing state with
  | nil => trivial
  | cons input inputs ih =>
      obtain ⟨_, stepAllowed, later⟩ := always
      have goodStep : good state input := Classical.byContradiction fun notGood =>
        broken state input initial notGood ⟨stepAllowed, later.head⟩
      exact ⟨goodStep, ih (kept state input initial goodStep).2 later⟩

/-! ## Where a state comes from -/

theorem final_append (state : σ) (first second : List ι) :
    final step state (first ++ second) = final step (final step state first) second := by
  induction first generalizing state with
  | nil => rfl
  | cons input first ih => exact ih (step state input)

/-- **The establishing step.** What holds at the end of a run but not at its start was
established by some step and has held ever since. -/
theorem exists_established (property : σ → Prop) {state : σ} (absent : ¬ property state)
    {inputs : List ι} (present : property (final step state inputs)) :
    ∃ before input after, inputs = before ++ input :: after ∧
      ¬ property (final step state before) ∧
      ∀ between later, after = between ++ later →
        property (final step state (before ++ input :: between)) := by
  induction inputs using List.reverseRecOn with
  | nil => exact (absent present).elim
  | append_singleton inputs last ih =>
      by_cases earlier : property (final step state inputs)
      · obtain ⟨before, input, after, split, absentBefore, since⟩ := ih earlier
        refine ⟨before, input, after ++ [last], by rw [split, List.append_assoc]; rfl,
          absentBefore, fun between later parts => ?_⟩
        rcases List.eq_nil_or_concat later with rfl | ⟨later, _, rfl⟩
        · rw [List.append_nil] at parts
          rw [← parts, ← List.cons_append, ← List.append_assoc, ← split]
          exact present
        · rw [List.concat_eq_append, ← List.append_assoc] at parts
          exact since between later (List.append_inj' parts rfl).1
      · refine ⟨inputs, last, [], rfl, earlier, fun between later parts => ?_⟩
        rw [(List.append_eq_nil_iff.mp parts.symm).1]
        exact present

end Run
