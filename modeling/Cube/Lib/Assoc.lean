import Mathlib.Data.List.Nodup
import Mathlib.Order.Defs.LinearOrder
import Mathlib.Order.Lattice

/-! # Association lists as maps

Keys with values, of which the first under a key counts. A value is assigned under a key either in
the place of the old one or, in a list that is kept in the order of its keys, where its key belongs.
A loop that sets the images of the values of a list is known by what is looked up in its result.
-/

namespace Assoc

variable {κ α β : Type}

section Assign

variable [DecidableEq κ]

theorem lookup_cons_ite (key : κ) (value : α) (rest : List (κ × α)) (k : κ) :
    ((key, value) :: rest).lookup k = if k = key then some value else rest.lookup k := by
  rw [List.lookup_cons]
  by_cases here : k = key
  · simp [here]
  · rw [beq_false_of_ne here, if_neg here]

/-- Set the value under a key, behind the others if the key is new. -/
def assign (key : κ) (value : α) : List (κ × α) → List (κ × α)
  | [] => [(key, value)]
  | (k, v) :: rest => if k = key then (key, value) :: rest else (k, v) :: assign key value rest

theorem lookup_assign (key : κ) (value : α) (list : List (κ × α)) (k : κ) :
    (assign key value list).lookup k = if k = key then some value else list.lookup k := by
  induction list with
  | nil => exact lookup_cons_ite key value [] k
  | cons head rest ih =>
      obtain ⟨first, v⟩ := head
      by_cases same : first = key
      · rw [assign, if_pos same, lookup_cons_ite, lookup_cons_ite, same]
        by_cases here : k = key <;> simp only [here, ↓reduceIte]
      · rw [assign, if_neg same, lookup_cons_ite, lookup_cons_ite, ih]
        by_cases front : k = first
        · simp only [front, same, ↓reduceIte]
        · simp only [front, ↓reduceIte]

/-- A value of a list with different keys is found under its key. -/
theorem lookup_of_mem {list : List (κ × α)} (distinct : (list.map Prod.fst).Nodup) {key : κ}
    {value : α} (member : (key, value) ∈ list) : list.lookup key = some value := by
  induction list with
  | nil => simp at member
  | cons head rest ih =>
      obtain ⟨first, v⟩ := head
      obtain ⟨fresh, later⟩ := List.nodup_cons.mp distinct
      rcases List.mem_cons.mp member with here | behind
      · obtain ⟨rfl, rfl⟩ := Prod.mk.inj here
        simp
      · have differs : key ≠ first := fun same =>
          fresh (same ▸ List.mem_map.mpr ⟨(key, value), behind, rfl⟩)
        rw [lookup_cons_ite, if_neg differs]
        exact ih later behind

/-- What is found under a key is in the list. -/
theorem mem_of_lookup {list : List (κ × α)} {key : κ} {value : α}
    (found : list.lookup key = some value) : (key, value) ∈ list := by
  obtain ⟨front, back, rfl, _⟩ := List.lookup_eq_some_iff.mp found
  exact List.mem_append_right _ List.mem_cons_self

end Assign

section Loop

variable [DecidableEq κ] {set : κ → β → List (κ × β) → List (κ × β)} {image : α → Option β}

/-- A loop over a list that sets the image of each value, if it has one, under its key. -/
def fillAll (set : κ → β → List (κ × β) → List (κ × β)) (image : α → Option β) :
    List (κ × β) → List (κ × α) → List (κ × β)
  | base, [] => base
  | base, (key, value) :: rest =>
      fillAll set image (match image value with
        | some result => set key result base
        | none => base) rest

/-- Under a key of the list stands the image of its value, and under any other what stood there. -/
theorem lookup_fillAll
    (law : ∀ key value base k,
      (set key value base).lookup k = if k = key then some value else base.lookup k)
    {list : List (κ × α)} (distinct : (list.map Prod.fst).Nodup) (base : List (κ × β)) (k : κ) :
    (fillAll set image base list).lookup k =
      ((list.lookup k).bind image).or (base.lookup k) := by
  induction list generalizing base with
  | nil => simp [fillAll]
  | cons head rest ih =>
      obtain ⟨key, value⟩ := head
      obtain ⟨fresh, later⟩ := List.nodup_cons.mp distinct
      rw [fillAll, ih later, lookup_cons_ite]
      by_cases here : k = key
      · subst here
        have absent : rest.lookup k = none := by
          rw [List.lookup_eq_none_iff]
          intro entry member
          rw [bne_iff_ne]
          exact fun same => fresh (same ▸ List.mem_map.mpr ⟨entry, member, rfl⟩)
        cases result : image value with
        | some result => simp [absent, law, result]
        | none => simp [absent, result]
      · rw [if_neg here]
        cases result : image value with
        | some result => simp only [law, here, ↓reduceIte]
        | none => rfl

end Loop

section Place

variable [LinearOrder κ]

/-- Set the value under a key, in the order of the keys if the key is new. -/
def place (key : κ) (value : α) : List (κ × α) → List (κ × α)
  | [] => [(key, value)]
  | (k, v) :: rest =>
      if key < k then (key, value) :: (k, v) :: rest
      else if key = k then (key, value) :: rest
      else (k, v) :: place key value rest

theorem lookup_place (key : κ) (value : α) (list : List (κ × α)) (k : κ) :
    (place key value list).lookup k = if k = key then some value else list.lookup k := by
  induction list with
  | nil => exact lookup_cons_ite key value [] k
  | cons head rest ih =>
      obtain ⟨first, v⟩ := head
      by_cases before : key < first
      · rw [place, if_pos before, lookup_cons_ite]
      · by_cases same : key = first
        · rw [place, if_neg before, if_pos same, lookup_cons_ite, lookup_cons_ite, same]
          by_cases here : k = first <;> simp only [here, ↓reduceIte]
        · rw [place, if_neg before, if_neg same, lookup_cons_ite, lookup_cons_ite, ih]
          by_cases front : k = first
          · simp only [front, Ne.symm same, ↓reduceIte]
          · simp only [front, ↓reduceIte]

theorem mem_place {key k : κ} {value v : α} {list : List (κ × α)}
    (member : (k, v) ∈ place key value list) : k = key ∨ (k, v) ∈ list := by
  induction list with
  | nil => simp_all [place]
  | cons head rest ih =>
      obtain ⟨first, w⟩ := head
      rw [place] at member
      split at member
      · rcases List.mem_cons.mp member with here | behind
        · exact .inl (Prod.mk.inj here).1
        · exact .inr behind
      · split at member
        · rcases List.mem_cons.mp member with here | behind
          · exact .inl (Prod.mk.inj here).1
          · exact .inr (List.mem_cons_of_mem _ behind)
        · rcases List.mem_cons.mp member with here | behind
          · exact .inr (here ▸ List.mem_cons_self)
          · exact (ih behind).imp_right (List.mem_cons_of_mem _)

/-- Setting a value keeps the keys in their order. -/
theorem sorted_place {list : List (κ × α)} (sorted : list.Pairwise (·.1 < ·.1)) (key : κ)
    (value : α) : (place key value list).Pairwise (·.1 < ·.1) := by
  induction list with
  | nil => exact List.pairwise_singleton _ _
  | cons head rest ih =>
      obtain ⟨first, v⟩ := head
      obtain ⟨above, later⟩ := List.pairwise_cons.mp sorted
      rw [place]
      by_cases before : key < first
      · rw [if_pos before]
        refine List.pairwise_cons.mpr ⟨fun entry member => ?_, sorted⟩
        rcases List.mem_cons.mp member with rfl | behind
        · exact before
        · exact lt_trans before (above entry behind)
      · rw [if_neg before]
        by_cases same : key = first
        · subst same
          rw [if_pos rfl]
          exact List.pairwise_cons.mpr ⟨above, later⟩
        · rw [if_neg same]
          refine List.pairwise_cons.mpr ⟨fun entry member => ?_, ih later⟩
          rcases mem_place member with here | behind
          · have after : first < key := lt_of_le_of_ne (not_lt.mp before) (Ne.symm same)
            exact here ▸ after
          · exact above entry behind

/-- A loop that sets values in the order of their keys keeps that order. -/
theorem sorted_fillAll {image : α → Option β} {base : List (κ × β)}
    (sorted : base.Pairwise (·.1 < ·.1)) (list : List (κ × α)) :
    (fillAll place image base list).Pairwise (·.1 < ·.1) := by
  induction list generalizing base with
  | nil => exact sorted
  | cons head rest ih =>
      obtain ⟨key, value⟩ := head
      rw [fillAll]
      cases image value with
      | some result => exact ih (sorted_place sorted key result)
      | none => exact ih sorted

/-- Keys in their order are different. -/
theorem nodup_of_sorted {list : List (κ × α)} (sorted : list.Pairwise (·.1 < ·.1)) :
    (list.map Prod.fst).Nodup := by
  rw [List.Nodup, List.pairwise_map]
  exact sorted.imp fun less same => absurd (same ▸ less) (lt_irrefl _)

/-- A new key comes to the others. -/
theorem perm_place {key : κ} {list : List (κ × α)} (fresh : key ∉ list.map Prod.fst) (value : α) :
    (place key value list).Perm ((key, value) :: list) := by
  induction list with
  | nil => exact .refl _
  | cons head rest ih =>
      obtain ⟨first, v⟩ := head
      rw [List.map_cons, List.mem_cons, not_or] at fresh
      rw [place]
      by_cases before : key < first
      · rw [if_pos before]
      · rw [if_neg before, if_neg fresh.1]
        exact ((ih fresh.2).cons _).trans (.swap _ _ _)

/-- A loop that sets the images of values with different keys has just these. -/
theorem perm_fillAll {image : α → Option β} {base : List (κ × β)} {list : List (κ × α)}
    (distinct : (list.map Prod.fst).Nodup)
    (fresh : ∀ key ∈ list.map Prod.fst, key ∉ base.map Prod.fst) :
    (fillAll place image base list).Perm
      (list.filterMap (fun entry => (image entry.2).map (Prod.mk entry.1)) ++ base) := by
  induction list generalizing base with
  | nil => exact .refl _
  | cons head rest ih =>
      obtain ⟨key, value⟩ := head
      obtain ⟨single, later⟩ := List.nodup_cons.mp distinct
      obtain ⟨new, others⟩ := List.forall_mem_cons.mp fresh
      rw [fillAll]
      cases found : image value with
      | none =>
          rw [List.filterMap_cons_none (by simp [found])]
          exact ih later others
      | some result =>
          have placed := perm_place new result
          have still : ∀ k ∈ rest.map Prod.fst, k ∉ (place key result base).map Prod.fst := by
            intro k behind inside
            rcases List.mem_cons.mp ((placed.map Prod.fst).mem_iff.mp inside) with here | old
            · exact single (here ▸ behind)
            · exact others k behind old
          rw [List.filterMap_cons_some (by simp [found] : _ = some (key, result))]
          exact (ih later still).trans ((placed.append_left _).trans List.perm_middle)

end Place

end Assoc
