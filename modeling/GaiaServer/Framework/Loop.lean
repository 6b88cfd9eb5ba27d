import Mathlib.Tactic.Common

/-!
# Loops that repeat while a pass asks for another

A pass over a state `S` says whether to go on, or raises (`S → Except ε Bool × S`). The
loop makes passes until one says no or raises: `Goes` is passes that all go on, and `Runs`
the whole loop, with the number of its passes.

* `Goes.measure`: a measure that each pass lowers bounds the number of passes;
* `runs_repeatWhile`: with such a measure, the executable loop with that much fuel runs to
  the end of the loop (`repeatWhile_eq_iff`: there is no other).
-/

namespace Gaia.Loop

variable {S ε : Type} (pass : S → Except ε Bool × S)

/-- `n` passes, each of which asks for another. -/
inductive Goes : S → Nat → S → Prop
  | refl {s : S} : Goes s 0 s
  | again {s s₁ t : S} {n : Nat} : pass s = (.ok true, s₁) → Goes s₁ n t → Goes s (n + 1) t

/-- The loop makes `passes` passes from `s`; the last ends it, with `r`. -/
def Runs (s : S) (passes : Nat) (r : Except ε Unit) (t : S) : Prop :=
  ∃ n s₁, passes = n + 1 ∧ Goes pass s n s₁ ∧ pass s₁ = (r.map fun _ => false, t)

/-- The loop, for at most `fuel` passes. -/
def repeatWhile : (fuel : Nat) → S → Except ε Unit × S
  | 0, s => (.ok (), s)
  | fuel + 1, s =>
    match pass s with
    | (.error exc, t) => (.error exc, t)
    | (.ok false, t) => (.ok (), t)
    | (.ok true, t) => repeatWhile fuel t

variable {pass} {s s₁ t : S} {n passes fuel : Nat} {r : Except ε Unit}

theorem Runs.again (hp : pass s = (.ok true, s₁)) (h : Runs pass s₁ passes r t) :
    Runs pass s (passes + 1) r t := by
  obtain ⟨n, s₂, rfl, hg, hl⟩ := h
  exact ⟨n + 1, s₂, rfl, hg.again hp, hl⟩

theorem Runs.last (hp : pass s = (r.map fun _ => false, t)) : Runs pass s 1 r t :=
  ⟨0, s, rfl, .refl, hp⟩

variable {μ : S → Nat}

/-- With more fuel than the measure, the loop runs to its end. -/
theorem runs_repeatWhile (hμ : ∀ s t, pass s = (.ok true, t) → μ t < μ s) (h : μ s < fuel) :
    ∃ passes, Runs pass s passes (repeatWhile pass fuel s).1 (repeatWhile pass fuel s).2 := by
  induction fuel generalizing s with
  | zero => exact absurd h (Nat.not_lt_zero _)
  | succ fuel ih =>
    unfold repeatWhile
    rcases hp : pass s with ⟨exc | goOn, t⟩
    · exact ⟨1, .last hp⟩
    · cases goOn with
      | false => exact ⟨1, .last hp⟩
      | true =>
        have hlt := hμ s t hp
        obtain ⟨passes, hr⟩ := ih (by omega : μ t < fuel)
        exact ⟨passes + 1, hr.again hp⟩

theorem Goes.measure (hμ : ∀ s t, pass s = (.ok true, t) → μ t < μ s) (h : Goes pass s n t) :
    μ t + n ≤ μ s := by
  induction h with
  | refl => exact Nat.le_refl _
  | again hp _ ih =>
    have hlt := hμ _ _ hp
    omega

theorem repeatWhile_goes (h : Goes pass s n t) (fuel : Nat) :
    repeatWhile pass (n + fuel) s = repeatWhile pass fuel t := by
  induction h with
  | refl => rw [Nat.zero_add]
  | again hp _ ih =>
    rw [Nat.add_right_comm, repeatWhile, hp]
    exact ih

theorem repeatWhile_last (hp : pass s = (r.map fun _ => false, t)) (fuel : Nat) :
    repeatWhile pass (fuel + 1) s = (r, t) := by
  rw [repeatWhile, hp]
  cases r <;> rfl

/-- The loop has one end, which the executable loop computes. -/
theorem repeatWhile_eq_iff (hμ : ∀ s t, pass s = (.ok true, t) → μ t < μ s) (h : μ s < fuel) :
    repeatWhile pass fuel s = (r, t) ↔ ∃ passes, Runs pass s passes r t := by
  constructor
  · intro he
    obtain ⟨passes, hr⟩ := runs_repeatWhile hμ h
    rw [he] at hr
    exact ⟨passes, hr⟩
  · intro hr
    obtain ⟨_, n, s₁, _, hg, hl⟩ := hr
    have hle := hg.measure hμ
    obtain ⟨k, rfl⟩ : ∃ k, fuel = n + (k + 1) := ⟨fuel - n - 1, by omega⟩
    rw [repeatWhile_goes hg, repeatWhile_last hl]

end Gaia.Loop
