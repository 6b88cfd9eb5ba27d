import GaiaServer.Framework.Trace

/-!
# Programs under interference

A program whose operations are interleaved with steps of others, which are in a relation `R`:
wherever they fall, it ends in an outcome and a state that satisfy `Q` (`Prog.Ensures`).

The rules follow the program: `ensures_lift`, `ensures_perform_bind`, `Ensures.bind`,
`Ensures.tryFinally`. A program that reads only what others leave as it is ends as its run
(`Only.ensures_run`). Among programs whose operations are steps in `R`, a program ends in `Q`
(`Ensures.traced`).
-/

namespace Gaia.Prog

variable {Op : Type} {Res : Op → Type} {ε α β S : Type}

/-- What others do between two operations, in any number of steps. -/
structure Interference (R : S → S → Prop) : Prop where
  refl : ∀ s, R s s
  trans : ∀ {s s' s''}, R s s' → R s' s'' → R s s''

variable (h : Handler Op Res ε S) (R : S → S → Prop)

/-- From `s`, with steps in `R` of others before each operation and at the end, the program
ends in `Q`. -/
def Ensures (Q : Except ε α → S → Prop) : Prog Op Res ε α → S → Prop
  | ret a, s => ∀ s', R s s' → Q (.ok a) s'
  | raise e, s => ∀ s', R s s' → Q (.error e) s'
  | call o k, s => ∀ s', R s s' → (k (h o s').1).Ensures Q (h o s').2

variable {h R} {Q : Except ε α → S → Prop} {s s' : S}

theorem ensures_lift {r : Except ε α} :
    (lift r : Prog Op Res ε α).Ensures h R Q s ↔ ∀ s', R s s' → Q r s' := by
  cases r <;> exact Iff.rfl

/-- An operation that does not raise, and what follows. -/
theorem ensures_perform_bind {o : Op} {f : Res o → Prog Op Res ε α}
    (ho : ∀ s', R s s' → ∃ a, (h o s').1 = .ok a ∧ (f a).Ensures h R Q (h o s').2) :
    ((perform o).bind f).Ensures h R Q s := by
  intro s' hs
  obtain ⟨a, ha, hf⟩ := ho s' hs
  show ((lift (h o s').1).bind f).Ensures h R Q (h o s').2
  rwa [ha]

theorem Ensures.mono {Q' : Except ε α → S → Prop} (hQ : ∀ r s, Q r s → Q' r s)
    {p : Prog Op Res ε α} (hp : p.Ensures h R Q s) : p.Ensures h R Q' s := by
  induction p generalizing s with
  | ret a => exact fun s' hs => hQ _ _ (hp s' hs)
  | raise e => exact fun s' hs => hQ _ _ (hp s' hs)
  | call o k ih => exact fun s' hs => ih _ (hp s' hs)

/-- With nobody else, a program ends as its run. -/
theorem ensures_eq_iff {p : Prog Op Res ε α} :
    p.Ensures h Eq Q s ↔ Q (p.run h s).1 (p.run h s).2 := by
  induction p generalizing s with
  | ret a => exact ⟨fun hp => hp s rfl, fun hp s' hs => hs ▸ hp⟩
  | raise e => exact ⟨fun hp => hp s rfl, fun hp s' hs => hs ▸ hp⟩
  | call o k ih =>
    rw [run_call, ← ih]
    exact ⟨fun hp => hp s rfl, fun hp s' hs => hs ▸ hp⟩

section

variable (hR : Interference R)
include hR

/-- The steps of others do not harm. -/
theorem Ensures.disturb {p : Prog Op Res ε α} (hp : p.Ensures h R Q s) (hs : R s s') :
    p.Ensures h R Q s' := by
  cases p with
  | ret a => exact fun t ht => hp t (hR.trans hs ht)
  | raise e => exact fun t ht => hp t (hR.trans hs ht)
  | call o k => exact fun t ht => hp t (hR.trans hs ht)

theorem Ensures.bind {Q' : Except ε β → S → Prop} {p : Prog Op Res ε α}
    {f : α → Prog Op Res ε β} (hp : p.Ensures h R Q s)
    (hok : ∀ a s', Q (.ok a) s' → (f a).Ensures h R Q' s')
    (herror : ∀ e s', Q (.error e) s' → Q' (.error e) s') : (p.bind f).Ensures h R Q' s := by
  induction p generalizing s with
  | ret a => exact hok a s (hp s (hR.refl s))
  | raise e => exact fun s' hs => herror e s' (hp s' hs)
  | call o k ih => exact fun s' hs => ih _ (hp s' hs)

/-- A program whose value is known, and what follows. -/
theorem Ensures.bind_ok {Q' : Except ε β → S → Prop} {P : S → Prop} {a : α}
    {p : Prog Op Res ε α} {f : α → Prog Op Res ε β}
    (hp : p.Ensures h R (fun r s' => r = .ok a ∧ P s') s)
    (hf : ∀ s', P s' → (f a).Ensures h R Q' s') : (p.bind f).Ensures h R Q' s := by
  refine hp.bind hR (fun b s' hb => ?_) fun e s' he => ?_
  · obtain rfl := Except.ok.inj hb.1
    exact hf s' hb.2
  · cases he.1

/-- A `finally` clause that ends quietly. -/
theorem Ensures.tryFinally {Q' : Except ε α → S → Prop} {p : Prog Op Res ε α}
    {fin : Prog Op Res ε Unit} (hp : p.Ensures h R Q s)
    (hfin : ∀ r s', Q r s' → fin.Ensures h R (fun f s'' => f = .ok () ∧ Q' r s'') s')
    (hstable : ∀ {r s s'}, Q' r s → R s s' → Q' r s') : (p.tryFinally fin).Ensures h R Q' s := by
  induction p generalizing s with
  | ret a =>
    exact (hfin _ s (hp s (hR.refl s))).bind_ok hR fun s' hs s'' hs' => hstable hs hs'
  | raise e =>
    exact (hfin _ s (hp s (hR.refl s))).bind_ok hR fun s' hs s'' hs' => hstable hs hs'
  | call o k ih => exact fun s' hs => ih _ (hp s' hs)

/-- A program that only reads, and only what others leave as it is, ends as its run. -/
theorem Only.ensures_run {A : Op → Prop} {p : Prog Op Res ε α} (hp : p.Only A)
    (hA : ∀ o s', A o → R s s' → h o s' = ((h o s).1, s')) (hs : R s s') :
    p.Ensures h R (fun r s'' => r = (p.run h s).1 ∧ R s s'') s' := by
  induction p generalizing s' with
  | ret a => exact fun t ht => ⟨rfl, hR.trans hs ht⟩
  | raise e => exact fun t ht => ⟨rfl, hR.trans hs ht⟩
  | call o k ih =>
    intro t ht
    have hst := hR.trans hs ht
    have hsame : (h o s).2 = s := congrArg Prod.snd (hA o s hp.1 (hR.refl s))
    have hk := ih (h o s).1 (hp.2 _) hst
    rw [hA o t hp.1 hst, run_call, hsame]
    exact hk

theorem Ensures.of_lift {r : Except ε α} (hp : (lift r : Prog Op Res ε α).Ensures h R Q s) :
    Q r s := ensures_lift.mp hp s (hR.refl s)

theorem Ensures.of_call {o : Op} {k : Except ε (Res o) → Prog Op Res ε α}
    (hp : (call o k).Ensures h R Q s) : (k (h o s).1).Ensures h R Q (h o s).2 := hp s (hR.refl s)

end

/-- Among programs whose operations, as they have taken effect, are steps in `R`. -/
theorem Ensures.traced {ι : Type} [DecidableEq ι] {F : ε → Prop} {P₀ P : Pool Op Res ε α ι} {i : ι}
    {A : Op → Prop} {t : List (ι × Op)} (hR : Interference R) (hF : ∀ e, ¬ F e)
    (hA : ∀ o s, A o → R s (h o s).2) (hp : (P₀ i).Ensures h R Q s)
    (ht : Pool.Traced h F P₀ s t P s') (hothers : ∀ x ∈ t, x.1 ≠ i → A x.2) :
    (P i).Ensures h R Q s' := by
  induction ht with
  | start => exact hp
  | @effect t P s' j o k _ hj ih =>
    rw [List.forall_mem_append, List.forall_mem_singleton] at hothers
    have hi := ih hothers.1
    by_cases hji : j = i
    · subst hji
      rw [hj] at hi
      rw [Function.update_self]
      exact hi.of_call hR
    · rw [Function.update_of_ne (Ne.symm hji)]
      exact hi.disturb hR (hA o s' (hothers.2 hji))
  | fault _ _ he _ => exact absurd he (hF _)

end Gaia.Prog
