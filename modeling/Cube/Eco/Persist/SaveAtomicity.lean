import Cube.Eco.Timestamp
import Cube.Eco.Persist.ObjectMapping
import Cube.Eco.Persist.TransactionBalance

/-! # Saving objects

`Database::save` and `save_all` of `Database.h`: an object is written as its timestamp says,
and its timestamp is cleared as soon as its own statement was executed. The session's memory
are the timestamps of the objects.
-/

namespace Cube.Eco.Persist

open Timestamp

/-- A timestamp for each object. -/
abbrev Timestamps (κ : Type) := κ → Timestamp

variable {κ : Type}

namespace Database

section Save

variable (engine : Engine) (mapping : ObjectMapping) (getValue : κ → Text → Text)

/-- What `save(obj, mapping, ts)` executes: nothing, or a statement. -/
def saveSql (obj : κ) (ts : Timestamp) : Except Text (Option Text) :=
  if cleared ts then .ok none
  else if inserted ts then (mapping.getInsertSql (getValue obj)).map some
  else if updated ts then (mapping.getUpdateSql (getValue obj)).map some
  else if removed ts then (mapping.getDeleteSql (getValue obj)).map some
  else .error "save object failed, timestamp is invalid.".toList

/-- `save(obj, mapping, ts)`. -/
def saveAs (obj : κ) (fails : Bool) (ts : Timestamp) (session : Session Text (Timestamps κ)) :
    Ending (Session Text (Timestamps κ)) :=
  match saveSql mapping getValue obj ts with
  | .error _ => .thrown session
  | .ok none => .returned session
  | .ok (some sql) => session.executeSql engine fails (.statement sql)

/-- The timestamps after an object was saved. -/
def saved [DecidableEq κ] (memory : Timestamps κ) (obj : κ) : Timestamps κ :=
  Function.update memory obj (clear (memory obj))

/-- `save(obj, mapping)`. -/
def save [DecidableEq κ] (obj : κ) (fails : Bool) (session : Session Text (Timestamps κ)) :
    Ending (Session Text (Timestamps κ)) :=
  (saveAs engine mapping getValue obj fails (session.memory obj) session).andThen fun session =>
    .returned { session with memory := saved session.memory obj }

/-- The loop of `save_all`; with each object stands whether executing its statement fails. -/
def saveEach [DecidableEq κ] : List (κ × Bool) → Session Text (Timestamps κ) →
    Ending (Session Text (Timestamps κ))
  | [], session => .returned session
  | (obj, fails) :: objSet, session =>
      (save engine mapping getValue obj fails session).andThen (saveEach objSet)

/-- `save_all(obj_set, mapping)`. -/
def saveAll [DecidableEq κ] (failing : Failing) (objSet : List (κ × Bool))
    (session : Session Text (Timestamps κ)) : Ending (Session Text (Timestamps κ)) :=
  Transaction.scope engine failing (saveEach engine mapping getValue objSet) true session

end Save

end Database

end Cube.Eco.Persist

/-! ## Saving all or none

When `save_all` throws, the transaction takes the statements back, and nothing takes back what
happened to the timestamps. So it is atomic for the objects only where no timestamp was changed
before the throw.
-/

namespace Cube.Eco.Persist

open Timestamp

variable {κ : Type} [DecidableEq κ]

namespace Database

section Condition

variable (mapping : ObjectMapping) (getValue : κ → Text → Text)

/-- Saving the object throws: no statement can be written, or executing it fails. -/
def Throws (memory : Timestamps κ) (entry : κ × Bool) : Prop :=
  match saveSql mapping getValue entry.1 (memory entry.1) with
  | .error _ => True
  | .ok none => False
  | .ok (some _) => entry.2 = true

/-- No object throws. -/
def Passes (memory : Timestamps κ) : List (κ × Bool) → Prop
  | [] => True
  | entry :: objSet =>
      ¬ Throws mapping getValue memory entry ∧ Passes (saved memory entry.1) objSet

/-- Every object before the first one that throws is clear or removed. -/
def Untouched (memory : Timestamps κ) : List (κ × Bool) → Prop
  | [] => True
  | entry :: objSet =>
      Throws mapping getValue memory entry ∨
        (cleared (memory entry.1) || removed (memory entry.1)) = true ∧ Untouched memory objSet

end Condition

/-- A `save_all` that throws keeps no statement and leaves the timestamps, and after one that
returns what was inserted or updated is clear. -/
structure Atomic (engine : Engine) (mapping : ObjectMapping) (getValue : κ → Text → Text)
    (failing : Failing) (objSet : List (κ × Bool)) (session : Session Text (Timestamps κ)) :
    Prop where
  threw : (saveAll engine mapping getValue failing objSet session).threw = true →
    (saveAll engine mapping getValue failing objSet session).state.db.kept <+:
        session.db.kept ++ session.db.pending ∧
      (saveAll engine mapping getValue failing objSet session).state.memory = session.memory
  returned : (saveAll engine mapping getValue failing objSet session).threw = false →
    ∀ entry ∈ objSet,
      (inserted (session.memory entry.1) || updated (session.memory entry.1)) = true →
        cleared ((saveAll engine mapping getValue failing objSet session).state.memory entry.1) =
          true

variable {engine : Engine} {mapping : ObjectMapping} {getValue : κ → Text → Text}

/-! ## Timestamps that stay -/

theorem clear_clear (v : Timestamp) : clear (clear v) = clear v := by
  unfold clear
  by_cases gone : removed v = true
  · rw [if_pos gone, if_pos gone]
  · rw [if_neg gone]
    exact if_neg (by decide)

theorem clear_eq_self_iff {v : Timestamp} :
    clear v = v ↔ (cleared v || removed v) = true := by
  unfold clear
  cases gone : removed v with
  | true => simp
  | false =>
      rw [if_neg Bool.false_ne_true, Bool.or_false, cleared, beq_iff_eq]
      exact eq_comm

theorem clear_of_written {v : Timestamp} (written : (inserted v || updated v) = true) :
    clear v = vClear := by
  rcases Bool.or_eq_true_iff.mp written with isInsert | isUpdate
  · rw [inserted, beq_iff_eq] at isInsert
    rw [isInsert]
    rfl
  · rw [updated, beq_iff_eq] at isUpdate
    rw [isUpdate]
    rfl

theorem saved_self (memory : Timestamps κ) (obj : κ) :
    saved memory obj obj = clear (memory obj) := Function.update_self _ _ _

theorem saved_other {obj other : κ} (different : other ≠ obj) (memory : Timestamps κ) :
    saved memory obj other = memory other := Function.update_of_ne different _ _

/-- Saving an object that is clear or removed changes no timestamp. -/
theorem saved_of_clear {memory : Timestamps κ} {obj : κ}
    (stays : clear (memory obj) = memory obj) : saved memory obj = memory := by
  rw [saved, stays, Function.update_eq_self]

/-! ## One object -/

/-- What the loop of `save_all` does in a transaction. -/
structure Looped (mapping : ObjectMapping) (getValue : κ → Text → Text)
    (objSet : List (κ × Bool)) (session : Session Text (Timestamps κ))
    (ending : Ending (Session Text (Timestamps κ))) : Prop where
  inside : Inside session ending.state
  passes : ending.threw = false ↔ Passes mapping getValue session.memory objSet
  untouched : ending.state.memory = session.memory ↔
    Untouched mapping getValue session.memory objSet
  stays : ∀ obj, clear (session.memory obj) = session.memory obj →
    ending.state.memory obj = session.memory obj
  clears : ending.threw = false → ∀ entry ∈ objSet,
    (inserted (session.memory entry.1) || updated (session.memory entry.1)) = true →
      cleared (ending.state.memory entry.1) = true

section Cons

variable {session after : Session Text (Timestamps κ)} {obj : κ} {objSet : List (κ × Bool)}
  {ending : Ending (Session Text (Timestamps κ))}

/-- The timestamp of an object that was saved is clear or removed from then on. -/
theorem Looped.saved_stays (rest : Looped mapping getValue objSet after ending)
    (memory : after.memory = saved session.memory obj) :
    ending.state.memory obj = clear (session.memory obj) := by
  have stays := rest.stays
  rw [memory] at stays
  exact (stays obj (by rw [saved_self, clear_clear])).trans (saved_self _ _)

/-- The loop changes no timestamp if the first object keeps its own and the rest changes none. -/
theorem Looped.untouched_cons (rest : Looped mapping getValue objSet after ending)
    (memory : after.memory = saved session.memory obj) :
    ending.state.memory = session.memory ↔
      (cleared (session.memory obj) || removed (session.memory obj)) = true ∧
        Untouched mapping getValue session.memory objSet := by
  rw [← clear_eq_self_iff]
  by_cases same : clear (session.memory obj) = session.memory obj
  · have later := rest.untouched
    rw [memory, saved_of_clear same] at later
    rw [later]
    exact ⟨fun untouched => ⟨same, untouched⟩, And.right⟩
  · refine iff_of_false (fun unchanged => same ?_) fun keeps => same keeps.1
    have final := rest.saved_stays memory
    rw [unchanged] at final
    exact final.symm

/-- The loop goes on behind an object that was saved. -/
theorem Looped.cons (rest : Looped mapping getValue objSet after ending) {fails : Bool}
    (passes : ¬ Throws mapping getValue session.memory (obj, fails))
    (inside : Inside session after) (memory : after.memory = saved session.memory obj) :
    Looped mapping getValue ((obj, fails) :: objSet) session ending := by
  have other : ∀ each, each ≠ obj → after.memory each = session.memory each := by
    intro each different
    rw [memory, saved_other different]
  refine ⟨inside.trans rest.inside, ?_, ?_, ?_, ?_⟩
  · rw [rest.passes, memory]
    exact ⟨fun later => ⟨passes, later⟩, And.right⟩
  · rw [rest.untouched_cons memory]
    exact (or_iff_right passes).symm
  · intro each keeps
    by_cases same : each = obj
    · subst same
      rw [rest.saved_stays memory, keeps]
    · rw [rest.stays each (by rw [other each same, keeps]), other each same]
  · intro works each member written
    by_cases same : each.1 = obj
    · rw [same] at written ⊢
      rw [rest.saved_stays memory, clear_of_written written]
      rfl
    · have later : each ∈ objSet := by
        rcases List.mem_cons.mp member with rfl | later
        · exact (same rfl).elim
        · exact later
      exact rest.clears works each later (by rw [other _ same]; exact written)

end Cons

end Database

open Cube.Eco.Persist.Database

variable {engine : Engine} {mapping : ObjectMapping} {getValue : κ → Text → Text}

end Cube.Eco.Persist
