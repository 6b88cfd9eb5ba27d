import Mathlib.Data.List.Basic
import Mathlib.Tactic.Common

/-!
# Paging

Reading a list in pages, each of at most `limit` items and after the number of
the last item of the page before, until one is empty (`Paging.collect`). Where the
numbers increase along the list, this yields the list, after at most one page
more than it has items (`collect_eq`).
-/

namespace Gaia.Paging

universe u

variable {α : Type u} (number : α → Int) (xs : List α)

/-- The items after a number, or all. -/
def after (n : Option Int) : List α := xs.filter fun x => n.all (· < number x)

/-- Page after page; nothing, if none of the first `fuel` pages is empty. -/
def collect (limit : Nat) : (fuel : Nat) → Option Int → Option (List α)
  | 0, _ => none
  | fuel + 1, n =>
    match ((after number xs n).take limit).getLast? with
    | none => some []
    | some x => (collect limit fuel (some (number x))).map ((after number xs n).take limit ++ ·)

variable {number xs}

theorem after_none : after number xs none = xs := by
  simp [after]

/-- What comes after a number that lies between two parts of the list. -/
theorem after_append {done rest : List α} {n : Int} (hdone : ∀ x ∈ done, number x ≤ n)
    (hrest : ∀ x ∈ rest, n < number x) : after number (done ++ rest) (some n) = rest := by
  simp only [after, Option.all_some, List.filter_append]
  have h1 : (done.filter fun x => decide (n < number x)) = [] := by
    refine List.filter_eq_nil_iff.mpr fun x hx => ?_
    have := hdone x hx
    simp only [decide_eq_true_eq]
    omega
  have h2 : (rest.filter fun x => decide (n < number x)) = rest := by
    refine List.filter_eq_self.mpr fun x hx => ?_
    simpa using hrest x hx
  rw [h1, h2, List.nil_append]

/-- What comes after the number of an item, where the numbers increase. -/
theorem after_item {done rest : List α} {x : α}
    (hinc : ((done ++ x :: rest).map number).Pairwise (· < ·)) :
    after number (done ++ x :: rest) (some (number x)) = rest := by
  rw [List.map_append, List.map_cons, List.pairwise_append, List.pairwise_cons] at hinc
  obtain ⟨-, ⟨hrest, -⟩, hdone⟩ := hinc
  rw [show done ++ x :: rest = (done ++ [x]) ++ rest by simp]
  refine after_append (fun y hy => ?_) fun y hy => hrest _ (List.mem_map_of_mem hy)
  rcases List.mem_append.mp hy with hy | hy
  · have hlt : number y < number x := hdone _ (List.mem_map_of_mem hy) _ List.mem_cons_self
    omega
  · obtain rfl := List.mem_singleton.mp hy
    exact Int.le_refl _

/-- From a state of the loop in which the items after `n` are `rest`, the loop
yields `rest`: it goes down with the items left. -/
theorem collect_rest {limit fuel : Nat} (hlimit : 1 ≤ limit) {done rest : List α} {n : Option Int}
    (hinc : ((done ++ rest).map number).Pairwise (· < ·))
    (hafter : after number (done ++ rest) n = rest) (hfuel : rest.length < fuel) :
    collect number (done ++ rest) limit fuel n = some rest := by
  induction fuel generalizing done rest n with
  | zero => omega
  | succ fuel ih =>
    unfold collect
    rw [hafter]
    cases hlast : (rest.take limit).getLast? with
    | none =>
      have hnil : rest = [] := by
        have := List.getLast?_eq_none_iff.mp hlast
        simpa [show limit ≠ 0 by omega] using this
      rw [hnil]
    | some x =>
      dsimp only
      obtain ⟨page, hpage⟩ := List.getLast?_eq_some_iff.mp hlast
      -- The list, with the page moved to the part that is done.
      have hsplit : done ++ rest = (done ++ rest.take limit) ++ rest.drop limit := by
        rw [List.append_assoc, List.take_append_drop]
      have hitem : (done ++ rest.take limit) ++ rest.drop limit =
          (done ++ page) ++ x :: rest.drop limit := by
        rw [hpage]
        simp
      have hnext : after number ((done ++ rest.take limit) ++ rest.drop limit) (some (number x)) =
          rest.drop limit := by
        rw [hsplit, hitem] at hinc
        rw [hitem]
        exact after_item hinc
      have hlen : 0 < rest.length := by
        refine List.length_pos_iff.mpr fun h => ?_
        simp [h] at hlast
      have hdrop : (rest.drop limit).length < fuel := by
        rw [List.length_drop]
        omega
      rw [hsplit] at hinc
      rw [hsplit, ih hinc hnext hdrop, Option.map_some, List.take_append_drop]

/-- Paging by increasing numbers yields each item once, in order. -/
theorem collect_eq {limit : Nat} (hlimit : 1 ≤ limit) (hinc : (xs.map number).Pairwise (· < ·)) :
    collect number xs limit (xs.length + 1) none = some xs := by
  have hall : after number ([] ++ xs) none = xs := after_none
  apply collect_rest hlimit hinc hall
  omega

end Gaia.Paging
