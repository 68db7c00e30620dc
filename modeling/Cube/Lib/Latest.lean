import Mathlib.Data.List.Nodup
import Mathlib.Data.List.Induction

/-! # The latest element of each key

In a log whose elements have keys, the last element of a key is the one that counts. Reading
a log from the front and letting each element overwrite what its key stood for leaves, for
each key, the latest element of it.
-/

namespace Latest

variable {α κ : Type} [DecidableEq κ] {key : α → κ} {k : κ}

/-- The last of the elements with a key. -/
def latest (key : α → κ) (k : κ) (list : List α) : Option α :=
  (list.filter fun element => key element = k).getLast?

@[simp] theorem latest_nil : latest key k [] = none := rfl

theorem latest_append_of_eq {element : α} (same : key element = k) (list : List α) :
    latest key k (list ++ [element]) = some element := by
  have alone : [element].filter (fun other => key other = k) = [element] :=
    List.filter_eq_self.mpr (by simpa using same)
  rw [latest, List.filter_append, alone, List.getLast?_concat]

theorem latest_append_self (list : List α) (element : α) :
    latest key (key element) (list ++ [element]) = some element :=
  latest_append_of_eq rfl list

theorem latest_append_of_ne {element : α} (different : key element ≠ k) (list : List α) :
    latest key k (list ++ [element]) = latest key k list := by
  have absent : [element].filter (fun other => key other = k) = [] :=
    List.filter_eq_nil_iff.mpr (by simpa using different)
  rw [latest, List.filter_append, absent, List.append_nil, latest]

theorem mem_of_latest {list : List α} {element : α} (found : latest key k list = some element) :
    element ∈ list ∧ key element = k := by
  have member := List.mem_filter.mp (List.mem_of_getLast? found)
  exact ⟨member.1, of_decide_eq_true member.2⟩

theorem latest_eq_none {list : List α} :
    latest key k list = none ↔ ∀ element ∈ list, key element ≠ k := by
  rw [latest, List.getLast?_eq_none_iff, List.filter_eq_nil_iff]
  simp only [decide_eq_true_eq, ne_eq]

/-- Where no two elements have the same key, an element is the latest of its key. -/
theorem latest_of_nodup {list : List α} (nodup : (list.map key).Nodup) {element : α}
    (member : element ∈ list) (same : key element = k) : latest key k list = some element := by
  cases found : latest key k list with
  | none => exact absurd same (latest_eq_none.mp found element member)
  | some other =>
      obtain ⟨otherMember, otherKey⟩ := mem_of_latest found
      rw [List.inj_on_of_nodup_map nodup member otherMember (same.trans otherKey.symm)]

/-- **Reading a log.** If each element overwrites what its key stands for and nothing else, what
a key stands for in the end comes from the latest element of it. -/
theorem foldl_latest {β γ : Type} (look : β → γ) {write : β → α → β} {value : α → γ}
    (overwrites : ∀ state element, key element = k → look (write state element) = value element)
    (keeps : ∀ state element, key element ≠ k → look (write state element) = look state)
    (state : β) (list : List α) :
    look (list.foldl write state) = ((latest key k list).map value).getD (look state) := by
  induction list using List.reverseRecOn with
  | nil => rfl
  | append_singleton list element ih =>
      rw [List.foldl_append, List.foldl_cons, List.foldl_nil]
      by_cases same : key element = k
      · rw [overwrites _ _ same, latest_append_of_eq same]
        rfl
      · rw [keeps _ _ same, latest_append_of_ne same, ih]

end Latest
