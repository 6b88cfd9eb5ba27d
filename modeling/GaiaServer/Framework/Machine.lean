import Mathlib.Data.List.Infix
import Mathlib.Tactic.Common

/-!
# Machines and their runs

A machine takes one step for each input (`step : S → A → S`), and a run takes
one input after another (`run`). A property of states holds along a run if it
holds of every state of it (`Always`), and a condition on steps if every step
meets it (`EveryStep`).

* `run_inv`: what every step keeps, a run keeps;
* `run_rel`: what relates every state to the next relates a run's first state to
  its last;
* `always_iff`: if a step leads from a good state to a good one exactly under a
  condition, then all states of a run are good exactly if every step meets it.
-/

namespace Gaia.Machine

variable {S A : Type} (step : S → A → S)

/-- The state after the inputs. -/
def run (s : S) (as : List A) : S := as.foldl step s

/-- Every state of the run has the property. -/
def Always (P : S → Prop) (s : S) (as : List A) : Prop := ∀ pre, pre <+: as → P (run step s pre)

/-- Every step of the run meets the condition. -/
def EveryStep (Q : S → A → Prop) (s : S) (as : List A) : Prop :=
  ∀ pre a post, as = pre ++ a :: post → Q (run step s pre) a

variable {step} {s : S} {a : A} {as : List A}

theorem run_append (s : S) (as bs : List A) :
    run step s (as ++ bs) = run step (run step s as) bs := List.foldl_append ..

theorem run_inv {I : S → Prop} (hI : ∀ s a, I s → I (step s a)) (hs : I s) (as : List A) :
    I (run step s as) := by
  induction as generalizing s with
  | nil => exact hs
  | cons a as ih => exact ih (hI s a hs)

theorem run_rel {R : S → S → Prop} (hrefl : ∀ s, R s s) (htrans : ∀ {s t u}, R s t → R t u → R s u)
    (hR : ∀ s a, R s (step s a)) (s : S) (as : List A) : R s (run step s as) := by
  induction as generalizing s with
  | nil => exact hrefl s
  | cons a as ih => exact htrans (hR s a) (ih (step s a))

theorem always_cons {P : S → Prop} :
    Always step P s (a :: as) ↔ P s ∧ Always step P (step s a) as := by
  constructor
  · intro h
    refine ⟨h [] List.nil_prefix, fun pre hpre => ?_⟩
    exact h (a :: pre) ((List.prefix_cons_inj a).mpr hpre)
  · rintro ⟨hs, h⟩ pre hpre
    cases pre with
    | nil => exact hs
    | cons b pre =>
      obtain ⟨rfl, htail⟩ := List.cons_prefix_cons.mp hpre
      exact h pre htail

theorem everyStep_nil {Q : S → A → Prop} : EveryStep step Q s [] := by
  intro pre a post he
  exact absurd he (by simp)

theorem everyStep_cons {Q : S → A → Prop} :
    EveryStep step Q s (a :: as) ↔ Q s a ∧ EveryStep step Q (step s a) as := by
  constructor
  · intro h
    refine ⟨h [] a as rfl, fun pre b post he => ?_⟩
    exact h (a :: pre) b post (by rw [he]; rfl)
  · rintro ⟨ha, h⟩ pre b post he
    cases pre with
    | nil =>
      obtain ⟨rfl, -⟩ := List.cons.inj he
      exact ha
    | cons c pre =>
      obtain ⟨rfl, htail⟩ := List.cons.inj he
      exact h pre b post htail

/-- From good states, those that satisfy the invariant `I` too, a step leads to a
good state exactly under the condition `Q`. -/
theorem always_iff {I P : S → Prop} {Q : S → A → Prop} (hI : ∀ s a, I s → I (step s a))
    (hPQ : ∀ s a, I s → P s → (P (step s a) ↔ Q s a)) (hs : I s) (hP : P s) (as : List A) :
    Always step P s as ↔ EveryStep step Q s as := by
  induction as generalizing s with
  | nil =>
    refine iff_of_true (fun pre hpre => ?_) everyStep_nil
    rw [List.prefix_nil.mp hpre]
    exact hP
  | cons a as ih =>
    rw [always_cons, everyStep_cons, and_iff_right hP]
    constructor
    · intro h
      have ht : P (step s a) := h [] List.nil_prefix
      exact ⟨(hPQ s a hs hP).mp ht, (ih (hI s a hs) ht).mp h⟩
    · rintro ⟨hq, h⟩
      exact (ih (hI s a hs) ((hPQ s a hs hP).mpr hq)).mpr h

end Gaia.Machine
