import GaiaServer.Framework.Interference

/-!
# Programs that rely on one another

Programs interleaved, whose operations take effect or raise an exception in `F`. `Sat F R Q`: if
the others only take steps in `R`, the program only takes steps in `R`, and ends in `Q`. The rules
follow the program (`sat_lift`, `sat_perform`, `Sat.perform_bind`, `Sat.bind`), and the steps of
others do not harm (`Sat.disturb`). So programs that all rely on `R` can rely on one another
(`Traced.sat`): each keeps to `R` and ends in its own `Q`, wherever they are interleaved.
-/

namespace Gaia

open Function (update)
open Prog (Interference)

variable {Op : Type} {Res : Op → Type} {ε α β S ι : Type}

namespace Prog

/-- From `s`, with steps in `R` of others before each operation and at the end, the program takes
steps in `R`, and ends in `Q`. -/
def Sat (h : Handler Op Res ε S) (F : ε → Prop) (R : S → S → Prop) (Q : Except ε α → S → Prop) :
    Prog Op Res ε α → S → Prop
  | ret a, s => ∀ s', R s s' → Q (.ok a) s'
  | raise e, s => ∀ s', R s s' → Q (.error e) s'
  | call o k, s => ∀ s', R s s' → R s' (h o s').2 ∧ (k (h o s').1).Sat h F R Q (h o s').2 ∧
      ∀ e, F e → (k (.error e)).Sat h F R Q s'

variable {h : Handler Op Res ε S} {F : ε → Prop} {R : S → S → Prop} {Q : Except ε α → S → Prop}
  {s s' : S}

theorem sat_lift {r : Except ε α} :
    (lift r : Prog Op Res ε α).Sat h F R Q s ↔ ∀ s', R s s' → Q r s' := by
  cases r <;> exact Iff.rfl

theorem Sat.mono {Q' : Except ε α → S → Prop} (hQ : ∀ r s, Q r s → Q' r s)
    {p : Prog Op Res ε α} (hp : p.Sat h F R Q s) : p.Sat h F R Q' s := by
  induction p generalizing s with
  | ret a => exact fun s' hs => hQ _ _ (hp s' hs)
  | raise e => exact fun s' hs => hQ _ _ (hp s' hs)
  | call o k ih =>
    intro s' hs
    obtain ⟨hstep, hk, hf⟩ := hp s' hs
    exact ⟨hstep, ih _ hk, fun e he => ih _ (hf e he)⟩

section

variable (hR : Interference R)
include hR

/-- The steps of others do not harm. -/
theorem Sat.disturb {p : Prog Op Res ε α} (hp : p.Sat h F R Q s) (hs : R s s') :
    p.Sat h F R Q s' := by
  cases p with
  | ret a => exact fun t ht => hp t (hR.trans hs ht)
  | raise e => exact fun t ht => hp t (hR.trans hs ht)
  | call o k => exact fun t ht => hp t (hR.trans hs ht)

/-- An operation, and what follows. -/
theorem Sat.perform_bind {o : Op} {f : Res o → Prog Op Res ε α}
    (hstep : ∀ s', R s s' → R s' (h o s').2)
    (hok : ∀ s' a, R s s' → (h o s').1 = .ok a → (f a).Sat h F R Q (h o s').2)
    (herror : ∀ s' e, R s s' → (h o s').1 = .error e → ∀ s'', R (h o s').2 s'' → Q (.error e) s'')
    (hfault : ∀ s' e, R s s' → F e → Q (.error e) s') : ((perform o).bind f).Sat h F R Q s := by
  intro s' hs
  refine ⟨hstep s' hs, ?_, fun e he s'' hs' => hfault s'' e (hR.trans hs hs') he⟩
  show ((lift (h o s').1).bind f).Sat h F R Q (h o s').2
  cases hr : (h o s').1 with
  | ok a => exact hok s' a hs hr
  | error e => exact herror s' e hs hr

theorem Sat.bind {Q' : Except ε β → S → Prop} {p : Prog Op Res ε α} {f : α → Prog Op Res ε β}
    (hp : p.Sat h F R Q s) (hok : ∀ a s', Q (.ok a) s' → (f a).Sat h F R Q' s')
    (herror : ∀ e s', Q (.error e) s' → Q' (.error e) s') : (p.bind f).Sat h F R Q' s := by
  induction p generalizing s with
  | ret a => exact hok a s (hp s (hR.refl s))
  | raise e => exact fun s' hs => herror e s' (hp s' hs)
  | call o k ih =>
    intro s' hs
    obtain ⟨hstep, hk, hf⟩ := hp s' hs
    exact ⟨hstep, ih _ hk, fun e he => ih _ (hf e he)⟩

end

end Prog

/-- Programs that all keep to `R` if the others do, all do, and each ends in its own `Q`. -/
theorem Pool.Traced.sat [DecidableEq ι] {h : Prog.Handler Op Res ε S} {F : ε → Prop}
    {R : S → S → Prop} {Q : ι → Except ε α → S → Prop} {P₀ P : Pool Op Res ε α ι} {s₀ s : S}
    {t : List (ι × Op)} (hR : Interference R) (hP : ∀ i, (P₀ i).Sat h F R (Q i) s₀)
    (ht : Pool.Traced h F P₀ s₀ t P s) : R s₀ s ∧ ∀ i, (P i).Sat h F R (Q i) s := by
  induction ht with
  | start => exact ⟨hR.refl s₀, hP⟩
  | @effect t P s i o k _ hi ih =>
    obtain ⟨hs, hall⟩ := ih
    have hcall := hall i
    rw [hi] at hcall
    obtain ⟨hstep, hk, -⟩ := hcall s (hR.refl s)
    refine ⟨hR.trans hs hstep, fun j => ?_⟩
    by_cases hj : j = i
    · subst hj
      rwa [Function.update_self]
    · rw [Function.update_of_ne hj]
      exact (hall j).disturb hR hstep
  | @fault t P s i o k e _ hi he ih =>
    obtain ⟨hs, hall⟩ := ih
    have hcall := hall i
    rw [hi] at hcall
    obtain ⟨-, -, hf⟩ := hcall s (hR.refl s)
    refine ⟨hs, fun j => ?_⟩
    by_cases hj : j = i
    · subst hj
      rw [Function.update_self]
      exact hf e he
    · rw [Function.update_of_ne hj]
      exact hall j

end Gaia
