import Mathlib.Data.List.DropRight
import Mathlib.Tactic.Common

/-!
# Slices and windows

Python's `xs[i:]` (`sliceFrom`), which counts a negative `i` from the end, and the last
`n` items of a list (`List.rtake`).

* `sliceFrom_neg_iff`: `xs[-n:]` is the last `n` items, save for `n = 0`: `-0` is `0`,
  so that `xs[-0:]` is all of `xs`;
* `trim_eq`: a list that is cut when it is longer than `n`;
* `rtake_append`: a window of `n` items that are cut after each addition is the window of
  all items (`rtake_rtake`: and a window of it is one of all items again).
-/

namespace Gaia

variable {α : Type*}

/-- `xs[i:]`. -/
def sliceFrom (xs : List α) (i : Int) : List α :=
  xs.drop (if i < 0 then xs.length + i else i).toNat

theorem sliceFrom_neg {n : Nat} (h : n ≠ 0) (xs : List α) : sliceFrom xs (-n) = xs.rtake n := by
  unfold sliceFrom List.rtake
  rw [if_pos (by omega)]
  congr 1
  omega

theorem sliceFrom_zero (xs : List α) : sliceFrom xs 0 = xs := rfl

theorem sliceFrom_neg_iff {xs : List α} {n : Nat} :
    sliceFrom xs (-n) = xs.rtake n ↔ n ≠ 0 ∨ xs = [] := by
  by_cases h : n = 0
  · subst h
    rw [List.rtake_zero]
    simp [sliceFrom_zero]
  · exact iff_of_true (sliceFrom_neg h xs) (.inl h)

/-! ## Windows -/

theorem rtake_of_length_le {xs : List α} {n : Nat} (h : xs.length ≤ n) : xs.rtake n = xs := by
  rw [List.rtake, Nat.sub_eq_zero_of_le h, List.drop_zero]

theorem length_rtake (xs : List α) (n : Nat) : (xs.rtake n).length = min n xs.length := by
  rw [List.rtake, List.length_drop]
  omega

/-- `if len(xs) > n: xs = xs[-n:]`. -/
theorem trim_eq {n : Nat} (h : n ≠ 0) (xs : List α) :
    (if xs.length > n then sliceFrom xs (-n) else xs) = xs.rtake n := by
  split
  · exact sliceFrom_neg h xs
  · rename_i hle
    exact (rtake_of_length_le (not_lt.mp hle)).symm

theorem rtake_rtake (xs : List α) (m n : Nat) : (xs.rtake m).rtake n = xs.rtake (min n m) := by
  simp only [List.rtake, List.drop_drop, List.length_drop]
  congr 1
  omega

theorem rtake_append (xs ys : List α) (n : Nat) :
    (xs.rtake n ++ ys).rtake n = (xs ++ ys).rtake n := by
  simp only [List.rtake]
  rw [← List.drop_append_of_le_length (Nat.sub_le ..), List.drop_drop]
  congr 1
  simp only [List.length_drop, List.length_append]
  omega

theorem getLast?_rtake {n : Nat} (h : n ≠ 0) (xs : List α) :
    (xs.rtake n).getLast? = xs.getLast? := by
  rw [List.rtake, List.getLast?_drop]
  split
  · rename_i hle
    have hnil : xs = [] := List.length_eq_zero_iff.mp (by omega)
    rw [hnil]
    rfl
  · rfl

end Gaia
