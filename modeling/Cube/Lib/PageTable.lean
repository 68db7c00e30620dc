import Mathlib.Logic.Function.Basic

/-! # Tables of pages

A table leads from indexes to pages, which are allocated when an index is looked up that has none,
and never used for a second index. What is known of a table is what its cells hold: the slots of
the pages that are at an index.
-/

/-- The page at every index, the slots of the pages, and how many pages were allocated. -/
structure PageTable (α : Type) where
  index : Nat → Option Nat
  pages : Nat → Nat → α
  allocated : Nat

namespace PageTable

variable {α : Type}

/-- No pages. -/
def empty (blank : α) : PageTable α := ⟨fun _ => none, fun _ _ => blank, 0⟩

/-- The page at an index, which is allocated if there is none. -/
def lookup (table : PageTable α) (blank : α) (index : Nat) : PageTable α × Nat :=
  match table.index index with
  | some page => (table, page)
  | none =>
      ({ index := Function.update table.index index (some table.allocated)
         pages := Function.update table.pages table.allocated fun _ => blank
         allocated := table.allocated + 1 }, table.allocated)

/-- A slot of a page is changed. -/
def write (table : PageTable α) (page slot : Nat) (change : α → α) : PageTable α :=
  { table with
    pages := Function.update table.pages page
      (Function.update (table.pages page) slot (change (table.pages page slot))) }

/-- There is no page at the index any more. -/
def remove (table : PageTable α) (index : Nat) : PageTable α :=
  { table with index := Function.update table.index index none }

/-- What is in a slot of the page at an index. -/
def cell (table : PageTable α) (index slot : Nat) : Option α :=
  (table.index index).map fun page => table.pages page slot

/-- Every index has a page of its own, which was allocated. -/
structure Paged (table : PageTable α) : Prop where
  apart : ∀ first second page, table.index first = some page → table.index second = some page →
    first = second
  numbered : ∀ index page, table.index index = some page → page < table.allocated

variable {table : PageTable α} {blank : α} {index page : Nat}

theorem paged_empty : (empty blank).Paged := ⟨nofun, nofun⟩

theorem cell_of_index (found : table.index index = some page) (slot : Nat) :
    table.cell index slot = some (table.pages page slot) := by
  simp [cell, found]

/-! ## Lookups -/

theorem lookup_of_some (found : table.index index = some page) :
    table.lookup blank index = (table, page) := by
  simp [lookup, found]

theorem lookup_of_none (missing : table.index index = none) :
    table.lookup blank index =
      ({ index := Function.update table.index index (some table.allocated)
         pages := Function.update table.pages table.allocated fun _ => blank
         allocated := table.allocated + 1 }, table.allocated) := by
  simp [lookup, missing]

/-- A lookup finds the page that is at the index from then on. -/
theorem lookup_found (table : PageTable α) (blank : α) (index : Nat) :
    (table.lookup blank index).1.index index = some (table.lookup blank index).2 := by
  cases found : table.index index with
  | some page => simp [lookup_of_some found, found]
  | none => simp [lookup_of_none found]

/-- A lookup keeps the pages that are there. -/
theorem lookup_kept (table : PageTable α) (blank : α) (index : Nat) {other : Nat}
    (known : table.index other = some page) :
    (table.lookup blank index).1.index other = some page := by
  cases found : table.index index with
  | some _ => simp [lookup_of_some found, known]
  | none =>
      have differs : other ≠ index := fun same => by simp [same, found] at known
      simp [lookup_of_none found, differs, known]

/-- A page after a lookup was there before, or is the new one of the index. -/
theorem lookup_cases (table : PageTable α) (blank : α) (index : Nat) {other : Nat}
    (known : (table.lookup blank index).1.index other = some page) :
    table.index other = some page ∨
      other = index ∧ table.index index = none ∧ page = table.allocated := by
  cases found : table.index index with
  | some _ => exact .inl (by simpa [lookup_of_some found] using known)
  | none =>
      by_cases same : other = index
      · right
        simpa [lookup_of_none found, same, eq_comm] using known
      · left
        simpa [lookup_of_none found, same] using known

theorem lookup_allocated (table : PageTable α) (blank : α) (index : Nat) :
    table.allocated ≤ (table.lookup blank index).1.allocated := by
  cases found : table.index index with
  | some _ => simp [lookup_of_some found]
  | none => simp [lookup_of_none found]

theorem Paged.lookup (paged : table.Paged) (blank : α) (index : Nat) :
    (table.lookup blank index).1.Paged := by
  cases found : table.index index with
  | some _ =>
      rw [lookup_of_some found]
      exact paged
  | none =>
      have old := paged.numbered
      refine ⟨fun first second page one two => ?_, fun other page known => ?_⟩
      · rcases table.lookup_cases blank index one with before | ⟨rfl, _, rfl⟩
        · rcases table.lookup_cases blank index two with other | ⟨rfl, _, rfl⟩
          · exact paged.apart first second page before other
          · exact absurd (old first _ before) (Nat.lt_irrefl _)
        · rcases table.lookup_cases blank first two with other | ⟨rfl, _, _⟩
          · exact absurd (old second _ other) (Nat.lt_irrefl _)
          · rfl
      · rw [lookup_of_none found]
        rcases table.lookup_cases blank index known with known | ⟨_, _, rfl⟩
        · exact Nat.lt_succ_of_lt (old other page known)
        · exact Nat.lt_succ_self _

/-- Behind a lookup a cell holds what it held, or is a blank one of a new page. -/
theorem Paged.lookup_cell (paged : table.Paged) {other slot : Nat} {content : α}
    (known : (table.lookup blank index).1.cell other slot = some content) :
    table.cell other slot = some content ∨
      other = index ∧ table.index index = none ∧ content = blank := by
  cases found : table.index index with
  | some _ => exact .inl (by simpa [lookup_of_some found] using known)
  | none =>
      obtain ⟨page, atOther, rfl⟩ := Option.map_eq_some_iff.mp known
      rcases table.lookup_cases blank index atOther with before | ⟨rfl, _, rfl⟩
      · left
        rw [cell_of_index before, lookup_of_none found]
        simp [Nat.ne_of_lt (paged.numbered other page before)]
      · right
        simp [lookup_of_none found]

/-! ## Writes -/

theorem Paged.write (paged : table.Paged) (page slot : Nat) (change : α → α) :
    (table.write page slot change).Paged := ⟨paged.apart, paged.numbered⟩

/-- A write to the page at an index changes one cell. -/
theorem Paged.write_cell (paged : table.Paged) (found : table.index index = some page) (slot : Nat)
    (change : α → α) (other place : Nat) :
    (table.write page slot change).cell other place =
      if other = index ∧ place = slot then (table.cell other place).map change
      else table.cell other place := by
  by_cases same : other = index
  · subst same
    by_cases here : place = slot <;> simp [cell, PageTable.write, found, here]
  · cases known : table.index other with
    | none => simp [cell, PageTable.write, known, same]
    | some page' =>
        have differs : page' ≠ page := fun equal =>
          same (paged.apart other index page (equal ▸ known) found)
        simp [cell, PageTable.write, known, same, differs]

/-! ## Removals -/

theorem remove_index (table : PageTable α) (index other : Nat) :
    (table.remove index).index other = if other = index then none else table.index other := by
  simp only [remove, Function.update_apply]

/-- A page behind a removal is one of another index. -/
theorem remove_cases {other : Nat} (known : (table.remove index).index other = some page) :
    other ≠ index ∧ table.index other = some page := by
  rw [remove_index] at known
  by_cases same : other = index
  · simp [same] at known
  · exact ⟨same, by simpa [same] using known⟩

theorem Paged.remove (paged : table.Paged) (index : Nat) : (table.remove index).Paged :=
  ⟨fun first second page one two =>
    paged.apart first second page (remove_cases one).2 (remove_cases two).2,
    fun other page known => paged.numbered other page (remove_cases known).2⟩

theorem remove_cell (table : PageTable α) (index other slot : Nat) :
    (table.remove index).cell other slot =
      if other = index then none else table.cell other slot := by
  rw [cell, remove_index]
  by_cases same : other = index
  · simp [same]
  · simp [same, cell, remove]

end PageTable
