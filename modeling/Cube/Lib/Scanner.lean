import Mathlib.Data.List.Basic

/-! # Scanners

A scanner takes its input item by item and gives notices; it may get stuck at an item. Input
that comes in chunks is scanned as a whole, wherever it was cut, by any reader that scans
each chunk.
-/

namespace Scanner

variable {σ α ω : Type}

/-- Scan items one after another. A scanner that gets stuck gives nothing. -/
def feed (step : σ → α → Option (σ × List ω)) : σ → List α → Option (σ × List ω)
  | state, [] => some (state, [])
  | state, item :: items =>
      (step state item).bind fun first => (feed step first.1 items).map fun second =>
        (second.1, first.2 ++ second.2)

/-- Read chunks one after another, each in a way that returns. -/
inductive Reads (read : σ → List α → σ → List ω → Prop) : σ → List (List α) → σ → List ω → Prop
  | nil (state : σ) : Reads read state [] state []
  | cons {state next last : σ} {chunk : List α} {chunks : List (List α)} {notices later : List ω}
      (here : read state chunk next notices) (rest : Reads read next chunks last later) :
      Reads read state (chunk :: chunks) last (notices ++ later)

variable {step : σ → α → Option (σ × List ω)} {read : σ → List α → σ → List ω → Prop}

@[simp] theorem feed_nil (state : σ) : feed step state [] = some (state, []) := rfl

theorem feed_cons (state : σ) (item : α) (items : List α) : feed step state (item :: items) =
    (step state item).bind fun first => (feed step first.1 items).map fun second =>
      (second.1, first.2 ++ second.2) := rfl

theorem feed_cons_of {state next : σ} {item : α} {notices : List ω}
    (taken : step state item = some (next, notices)) (items : List α) :
    feed step state (item :: items) =
      (feed step next items).map fun second => (second.1, notices ++ second.2) := by
  rw [feed_cons, taken, Option.bind_some]

theorem feed_singleton (state : σ) (item : α) : feed step state [item] = step state item := by
  rw [feed_cons]
  cases step state item with
  | none => rfl
  | some first => simp

/-- A scanner goes on where it stopped. -/
theorem feed_append (state : σ) (first second : List α) : feed step state (first ++ second) =
    (feed step state first).bind fun front => (feed step front.1 second).map fun back =>
      (back.1, front.2 ++ back.2) := by
  induction first generalizing state with
  | nil => simp
  | cons item items ih =>
      rw [List.cons_append, feed_cons, feed_cons]
      cases step state item with
      | none => rfl
      | some taken =>
          rw [Option.bind_some, Option.bind_some, ih]
          cases feed step taken.1 items with
          | none => rfl
          | some front => simp [Function.comp_def, List.append_assoc]

theorem feed_append_of {state next : σ} {first : List α} {notices : List ω}
    (fed : feed step state first = some (next, notices)) (second : List α) :
    feed step state (first ++ second) =
      (feed step next second).map fun back => (back.1, notices ++ back.2) := by
  rw [feed_append, fed, Option.bind_some]

/-- Input for which no notice is given does not show in the notices. -/
theorem feed_append_quiet {state next : σ} {first : List α}
    (fed : feed step state first = some (next, [])) (second : List α) :
    feed step state (first ++ second) = feed step next second := by
  rw [feed_append_of fed]
  cases feed step next second with
  | none => rfl
  | some back => rfl

theorem feed_cons_quiet {state next : σ} {item : α} (taken : step state item = some (next, []))
    (items : List α) : feed step state (item :: items) = feed step next items :=
  feed_append_quiet ((feed_singleton state item).trans taken) items

/-- What every step keeps, a scan keeps. -/
theorem feed_kept (invariant : σ → Prop)
    (kept : ∀ {state item next notices}, invariant state →
      step state item = some (next, notices) → invariant next)
    {state last : σ} {items : List α} {notices : List ω} (initial : invariant state)
    (fed : feed step state items = some (last, notices)) : invariant last := by
  induction items generalizing state notices with
  | nil =>
      rw [feed_nil] at fed
      cases fed
      exact initial
  | cons item items ih =>
      cases taken : step state item with
      | none => rw [feed_cons, taken] at fed; cases fed
      | some first =>
          obtain ⟨next, here⟩ := first
          rw [feed_cons_of taken, Option.map_eq_some_iff] at fed
          obtain ⟨⟨found, later⟩, rest, same⟩ := fed
          cases same
          exact ih (kept initial taken) rest

/-- **Chunks.** A reader that scans each chunk scans the whole input. -/
theorem reads_iff (invariant : σ → Prop) (usable : List α → Prop)
    (kept : ∀ {state item next notices}, invariant state →
      step state item = some (next, notices) → invariant next)
    (scans : ∀ {state chunk next notices}, invariant state → usable chunk →
      (read state chunk next notices ↔ feed step state chunk = some (next, notices)))
    {state last : σ} {chunks : List (List α)} {notices : List ω} (initial : invariant state)
    (all : ∀ chunk ∈ chunks, usable chunk) : Reads read state chunks last notices ↔
      feed step state chunks.flatten = some (last, notices) := by
  induction chunks generalizing state notices with
  | nil =>
      rw [List.flatten_nil, feed_nil]
      constructor
      · intro reads
        cases reads
        rfl
      · intro fed
        cases fed
        exact .nil _
  | cons chunk chunks ih =>
      have here := all chunk List.mem_cons_self
      have others := fun other member => all other (List.mem_cons_of_mem _ member)
      rw [List.flatten_cons, feed_append]
      constructor
      · intro reads
        cases reads with
        | cons first rest =>
            have fed := (scans initial here).mp first
            rw [fed, Option.bind_some, (ih (feed_kept invariant kept initial fed) others).mp rest]
            rfl
      · intro fed
        cases first : feed step state chunk with
        | none => rw [first] at fed; cases fed
        | some front =>
            rw [first, Option.bind_some, Option.map_eq_some_iff] at fed
            obtain ⟨⟨found, later⟩, rest, same⟩ := fed
            cases same
            exact .cons ((scans initial here).mpr first)
              ((ih (feed_kept invariant kept initial first) others).mpr rest)

end Scanner
