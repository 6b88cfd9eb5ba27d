import Mathlib.Tactic.Common

/-!
# Partial updates, merged and replaced

A partial update has values for some of the keys (`Update`). After a sequence of updates,
a store that merges them holds for each key the last value that an update has
(`merged`), and one that replaces its contents holds what the last update has
(`replaced`); both hold the default where there is none. They hold the same of a key
exactly if the last update has it, or the merged value of the others is the default
(`replaced_eq_merged_iff`).
-/

namespace Gaia.Merge

variable {κ : Type*} {β : κ → Type*}

/-- The values of an update. -/
abbrev Update (κ : Type*) (β : κ → Type*) := (k : κ) → Option (β k)

variable (default : (k : κ) → β k)

/-- What a store that merges the updates holds. -/
def merged (updates : List (Update κ β)) (k : κ) : β k :=
  ((updates.filterMap fun u => u k).getLast?).getD (default k)

/-- What a store that replaces its contents holds. -/
def replaced (updates : List (Update κ β)) (k : κ) : β k :=
  (updates.getLast?.bind fun u => u k).getD (default k)

variable {default} {updates : List (Update κ β)} {u : Update κ β} {k : κ}

theorem merged_append : merged default (updates ++ [u]) k =
    (u k).getD (merged default updates k) := by
  unfold merged
  rw [List.filterMap_append]
  cases h : u k with
  | none => simp [h]
  | some v => simp [h]

theorem replaced_append : replaced default (updates ++ [u]) k = (u k).getD (default k) := by
  unfold replaced
  rw [List.getLast?_append, List.getLast?_singleton]
  rfl

theorem replaced_eq_merged_iff :
    replaced default (updates ++ [u]) k = merged default (updates ++ [u]) k ↔
      (u k = none → merged default updates k = default k) := by
  rw [replaced_append, merged_append]
  cases u k with
  | none => simpa using eq_comm
  | some v => simp

end Gaia.Merge
