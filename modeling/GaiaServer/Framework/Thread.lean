import Mathlib.Tactic.Common

/-!
# One thread and a lock

A thread works off a list of commands on a state `S`: it acquires and releases a lock
that is not reentrant, and takes actions, each of which changes the state and puts the
commands that it calls in front of the rest. A thread that acquires the lock while it
holds it is blocked for good: nobody else releases it.

* `Reaches.of_step`, `Reaches.trans`: runs;
* `deadlocks_iff_of_reaches`: a run does not change whether the thread ends up blocked.
-/

namespace Gaia

/-- A command: the lock, or an action in `A`. -/
inductive Command (A : Type)
  | acquire
  | release
  | act (a : A)

/-- A thread: the state, whether it holds the lock, and what is left to do. -/
structure Thread (S A : Type) where
  state : S
  held : Bool
  todo : List (Command A)

namespace Thread

variable {S A : Type} (exec : A → S → S × List (Command A))

/-- The next command, if there is one that can go on. -/
def step : Thread S A → Option (Thread S A)
  | ⟨_, _, []⟩ => none
  | ⟨s, held, .acquire :: todo⟩ => if held then none else some ⟨s, true, todo⟩
  | ⟨s, _, .release :: todo⟩ => some ⟨s, false, todo⟩
  | ⟨s, held, .act a :: todo⟩ => some ⟨(exec a s).1, held, (exec a s).2 ++ todo⟩

/-- Any number of steps. -/
inductive Reaches : Thread S A → Thread S A → Prop
  | refl {t : Thread S A} : Reaches t t
  | step {t t₁ u : Thread S A} : step exec t = some t₁ → Reaches t₁ u → Reaches t u

/-- The thread holds the lock and acquires it. -/
def Blocked (t : Thread S A) : Prop := t.held = true ∧ ∃ todo, t.todo = .acquire :: todo

/-- The thread comes to where it is blocked. -/
def Deadlocks (t : Thread S A) : Prop := ∃ u, Reaches exec t u ∧ Blocked u

variable {exec} {t t₁ u : Thread S A} {s : S} {held : Bool} {todo : List (Command A)}

theorem Reaches.of_step (h : Thread.step exec t = some u) : Reaches exec t u := .step h .refl

theorem Reaches.trans (h : Reaches exec t t₁) (h' : Reaches exec t₁ u) : Reaches exec t u := by
  induction h with
  | refl => exact h'
  | step hs _ ih => exact .step hs (ih h')

theorem Blocked.step_eq (h : Blocked t) : step exec t = none := by
  obtain ⟨s, held, todo⟩ := t
  obtain ⟨rfl, rest, rfl⟩ := h
  rfl

theorem deadlocks_of_blocked (h : Blocked t) : Deadlocks exec t := ⟨t, .refl, h⟩

theorem deadlocks_iff_of_reaches (h : Reaches exec t u) : Deadlocks exec t ↔ Deadlocks exec u := by
  induction h with
  | refl => exact Iff.rfl
  | @step t t₁ u hs _ ih =>
    rw [← ih]
    constructor
    · intro hd
      obtain ⟨v, hr, hb⟩ := hd
      cases hr with
      | refl => rw [hb.step_eq] at hs; cases hs
      | step hs' hr =>
        rw [hs] at hs'
        obtain rfl := Option.some.inj hs'
        exact ⟨v, hr, hb⟩
    · intro hd
      obtain ⟨v, hr, hb⟩ := hd
      exact ⟨v, .step hs hr, hb⟩

/-- A thread that has nothing left to do is not blocked. -/
theorem not_deadlocks_nil : ¬ Deadlocks exec ⟨s, held, []⟩ := by
  intro hd
  obtain ⟨u, hr, hb⟩ := hd
  cases hr with
  | refl =>
    obtain ⟨_, rest, he⟩ := hb
    cases he
  | step hs _ => cases hs

end Thread

end Gaia
