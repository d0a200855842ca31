import Mathlib.Data.List.Nodup
import Mathlib.Logic.Function.Basic

set_option autoImplicit false

/- Lists of rows with a key, read as partial maps. With at most one row per key,
selecting, appending and deleting rows are lookup, binding and unbinding. -/
namespace Keyed

variable {α κ : Type}

/-- At most one row per key. -/
def Unique (key : α → κ) (rows : List α) : Prop := (rows.map key).Nodup

instance [DecidableEq κ] (key : α → κ) (rows : List α) : Decidable (Unique key rows) :=
  inferInstanceAs (Decidable (_ : List κ).Nodup)

/-- The first row with a key. -/
def lookup [DecidableEq κ] (key : α → κ) (rows : List α) (name : κ) : Option α :=
  rows.find? (key · = name)

variable {key : α → κ}

theorem Unique.filter {rows : List α} (unique : Unique key rows) (keep : α → Bool) :
    Unique key (rows.filter keep) :=
  List.Nodup.sublist (List.filter_sublist.map key) unique

theorem Unique.append {rows : List α} (unique : Unique key rows) (row : α)
    (absent : ∀ other ∈ rows, key other ≠ key row) : Unique key (rows ++ [row]) := by
  simp only [Unique, List.map_append, List.map_cons, List.map_nil]
  refine List.Nodup.append unique (List.nodup_singleton _) ?_
  intro name left right
  obtain ⟨other, member, rfl⟩ := List.mem_map.mp left
  exact absent other member (List.mem_singleton.mp right)

/-- Appending a second row with a key breaks uniqueness. -/
theorem not_unique_append {rows : List α} (row other : α) (member : other ∈ rows)
    (same : key other = key row) : ¬ Unique key (rows ++ [row]) := by
  intro unique
  simp only [Unique, List.map_append, List.map_cons, List.map_nil] at unique
  exact (List.nodup_append'.mp unique).2.2 (List.mem_map_of_mem member)
    (List.mem_singleton.mpr same)

variable [DecidableEq κ]

theorem lookup_isSome {rows : List α} {name : κ} :
    (lookup key rows name).isSome ↔ ∃ row ∈ rows, key row = name := by
  simp only [lookup, List.find?_isSome, decide_eq_true_eq]

theorem lookup_eq_none {rows : List α} {name : κ} :
    lookup key rows name = none ↔ ∀ row ∈ rows, key row ≠ name := by
  simp only [lookup, List.find?_eq_none, decide_eq_true_eq, ne_eq]

/-- The rows with a key are the one row a lookup finds. -/
theorem Unique.filter_eq {rows : List α} (unique : Unique key rows) (name : κ) :
    rows.filter (key · = name) = (lookup key rows name).toList := by
  induction rows with
  | nil => rfl
  | cons row rest ih =>
      simp only [Unique, List.map_cons, List.nodup_cons, List.mem_map, not_exists, not_and]
        at unique
      by_cases named : key row = name
      · have absent : rest.filter (key · = name) = [] := by
          rw [List.filter_eq_nil_iff]
          intro other member
          simpa only [decide_eq_true_eq, ← named] using unique.1 other member
        simp [lookup, named, absent]
      · simpa [lookup, named] using ih unique.2

theorem lookup_append (rows : List α) (row : α) (absent : ∀ other ∈ rows, key other ≠ key row) :
    lookup key (rows ++ [row]) = Function.update (lookup key rows) (key row) (some row) := by
  funext name
  by_cases same : name = key row
  · subst same
    rw [Function.update_self, lookup, List.find?_append,
      show rows.find? (key · = key row) = none from lookup_eq_none.mpr absent]
    simp
  · rw [Function.update_of_ne same, lookup, List.find?_append]
    simp [lookup, Ne.symm same]

theorem lookup_delete (rows : List α) (name : κ) :
    lookup key (rows.filter (key · ≠ name)) = Function.update (lookup key rows) name none := by
  funext other
  by_cases same : other = name
  · subst same
    rw [Function.update_self, lookup_eq_none]
    intro row member
    simpa using (List.mem_filter.mp member).2
  · rw [Function.update_of_ne same]
    induction rows with
    | nil => rfl
    | cons row rest ih =>
        simp only [lookup] at ih ⊢
        by_cases named : key row = name
        · have skip : key row ≠ other := fun equal => same (equal.symm.trans named)
          simpa [named, skip, Ne.symm same] using ih
        · by_cases found : key row = other
          · simp [found, same]
          · simpa [named, found] using ih

end Keyed
