import GaiaServer.Framework.Prog

/-!
# Programs interleaved

Several programs on one state (`Pool`): at each step some program issues its
next operation, which takes effect atomically, or, for the exceptions in `F`,
raises one of them without effect (`Pool.Step`); `Pool.Reach` is any number of
steps.

* `Reach.run_thread`: from any reachable point a program can run to its end
  undisturbed;
* `Returns`: what a program returns when the others keep an invariant `I` of the
  state (`Returns.bind`, `Returns.reach`); if they keep all that the program reads, what it
  returns is what it returns alone (`Returns.of_stable`);
* `Claims`: a program that returns only if one of its operations wins a claim
  that can be won once (`Claims.exclusive`: then at most one program returns).
-/

namespace Gaia

open Function (update forall_update_iff)

variable {Op : Type} {Res : Op → Type} {ε α β S ι : Type}

/-- A family of programs. -/
abbrev Pool (Op : Type) (Res : Op → Type) (ε α ι : Type) := ι → Prog Op Res ε α

namespace Pool

variable [DecidableEq ι]

/-- One operation of one program: it takes effect, or raises an exception in `F`
without effect. -/
inductive Step (h : Prog.Handler Op Res ε S) (F : ε → Prop) :
    Pool Op Res ε α ι → S → Pool Op Res ε α ι → S → Prop
  | effect {P : Pool Op Res ε α ι} {s i o k} (hi : P i = .call o k) :
      Step h F P s (update P i (k (h o s).1)) (h o s).2
  | fault {P : Pool Op Res ε α ι} {s i o k e} (hi : P i = .call o k) (he : F e) :
      Step h F P s (update P i (k (.error e))) s

/-- The points an interleaving of `P₀` from `s₀` can reach. -/
inductive Reach (h : Prog.Handler Op Res ε S) (F : ε → Prop) (P₀ : Pool Op Res ε α ι) (s₀ : S) :
    Pool Op Res ε α ι → S → Prop
  | start : Reach h F P₀ s₀ P₀ s₀
  | step {P s P' s'} : Reach h F P₀ s₀ P s → Step h F P s P' s' → Reach h F P₀ s₀ P' s'

variable {h : Prog.Handler Op Res ε S} {F : ε → Prop}

/-- A program runs to its end while the others wait. -/
theorem Reach.run_thread {P₀ P : Pool Op Res ε α ι} {s₀ s : S} (hr : Reach h F P₀ s₀ P s) (i : ι) :
    Reach h F P₀ s₀ (update P i (.lift ((P i).run h s).1)) ((P i).run h s).2 := by
  generalize hp : P i = p
  induction p generalizing P s with
  | ret a => rwa [Prog.run_ret, Prog.lift_ok, ← hp, Function.update_eq_self]
  | raise e => rwa [Prog.run_raise, Prog.lift_error, ← hp, Function.update_eq_self]
  | call o k ih =>
    have := ih _ (hr.step (.effect hp)) (Function.update_self ..)
    rwa [Function.update_idem] at this

end Pool

namespace Prog

variable (h : Handler Op Res ε S) (F : ε → Prop) (I : S → Prop)

/-- Issuing only operations in `A`, on states satisfying `I`, the program
returns only values satisfying `Q`. -/
inductive Returns (A : Op → Prop) (Q : α → Prop) : Prog Op Res ε α → Prop
  | ret {a} (hq : Q a) : Returns A Q (ret a)
  | raise {e} : Returns A Q (raise e)
  | call {o k} (ho : A o) (hk : ∀ s, I s → Returns A Q (k (h o s).1))
      (hf : ∀ e, F e → Returns A Q (k (.error e))) : Returns A Q (call o k)

variable {h F I} {A : Op → Prop}

theorem Returns.bind {p : Prog Op Res ε α} {f : α → Prog Op Res ε β} {Q : α → Prop} {R : β → Prop}
    (hp : Returns h F I A Q p) (hf : ∀ a, Q a → Returns h F I A R (f a)) :
    Returns h F I A R (p.bind f) := by
  induction hp with
  | ret hq => exact hf _ hq
  | raise => exact .raise
  | call ho _ _ ihk ihf => exact .call ho ihk ihf

theorem Returns.mono {B : Op → Prop} (hAB : ∀ o, A o → B o) {p : Prog Op Res ε α} {Q : α → Prop}
    (hp : Returns h F I A Q p) : Returns h F I B Q p := by
  induction hp with
  | ret hq => exact .ret hq
  | raise => exact .raise
  | call ho _ _ ihk ihf => exact .call (hAB _ ho) ihk ihf

/-- In a pool whose programs all keep `I`, each returns only what it should. -/
theorem Returns.reach [DecidableEq ι] {P₀ P : Pool Op Res ε α ι} {s₀ s : S} {Q : ι → α → Prop}
    (hI : ∀ {o s}, A o → I s → I (h o s).2) (h₀ : I s₀)
    (hP : ∀ i, Returns h F I A (Q i) (P₀ i)) (hr : Pool.Reach h F P₀ s₀ P s) :
    I s ∧ ∀ i, Returns h F I A (Q i) (P i) := by
  induction hr with
  | start => exact ⟨h₀, hP⟩
  | @step P s _ _ _ hs ih =>
    obtain ⟨hi, hp⟩ := ih
    cases hs with
    | @effect i o k hio =>
      have hc := hio ▸ hp i
      cases hc with
      | call ho hk _ =>
        have hall : ∀ j, Returns h F I A (Q j) (update P i (k (h o s).1) j) :=
          (forall_update_iff P fun j => Returns h F I A (Q j)).mpr ⟨hk s hi, fun j _ => hp j⟩
        exact ⟨hI ho hi, hall⟩
    | @fault i o k e hio he =>
      have hc := hio ▸ hp i
      cases hc with
      | call _ _ hf =>
        have hall : ∀ j, Returns h F I A (Q j) (update P i (k (.error e)) j) :=
          (forall_update_iff P fun j => Returns h F I A (Q j)).mpr ⟨hf e he, fun j _ => hp j⟩
        exact ⟨hi, hall⟩

/-- If every operation in `A` reads the same as in `s₀` and changes nothing
there, then without faults a program of such operations returns what it returns
alone from `s₀`. -/
theorem Returns.of_stable {s₀ : S} (hF : ∀ e, ¬ F e)
    (hA : ∀ o s, A o → I s → (h o s).1 = (h o s₀).1) (hs : ∀ o, A o → (h o s₀).2 = s₀)
    {p : Prog Op Res ε α} (hp : p.Only A) :
    Returns h F I A (fun a => p.run h s₀ = (.ok a, s₀)) p := by
  induction p with
  | ret a => exact .ret rfl
  | raise e => exact .raise
  | call o k ih =>
    refine .call hp.1 (fun s hi => ?_) fun e he => absurd he (hF e)
    have := ih (h o s₀).1 (hp.2 _)
    rw [hA o s hp.1 hi]
    simpa only [run_call, hs o hp.1] using this

/-! ## Claims that can be won once -/

variable (h F I)

/-- The program returns only if an operation in `W` won (`won`); its other
operations, and all those after the winning one, are in `A`. -/
inductive Claims (A W : Op → Prop) (won : (o : Op) → Res o → Prop) : Prog Op Res ε α → Prop
  | raise {e} : Claims A W won (raise e)
  | call {o k} (ho : A o) (hk : ∀ s, I s → Claims A W won (k (h o s).1))
      (hf : ∀ e, F e → Claims A W won (k (.error e))) : Claims A W won (call o k)
  | claim {o k} (ho : W o) (hwon : ∀ r, won o r → (k (.ok r)).Only A)
      (hlost : ∀ r, ¬ won o r → Claims A W won (k (.ok r)))
      (hf : ∀ e, Claims A W won (k (.error e))) : Claims A W won (call o k)

variable {h F I} {W : Op → Prop} {won : (o : Op) → Res o → Prop}

theorem Returns.bind_claims {p : Prog Op Res ε α} {f : α → Prog Op Res ε β} {Q : α → Prop}
    (hp : Returns h F I A Q p) (hf : ∀ a, Q a → Claims h F I A W won (f a)) :
    Claims h F I A W won (p.bind f) := by
  induction hp with
  | ret hq => exact hf _ hq
  | raise => exact .raise
  | call ho _ _ ihk ihf => exact .call ho ihk ihf

theorem Claims.ne_ret {p : Prog Op Res ε α} (hp : Claims h F I A W won p) (a : α) : p ≠ ret a := by
  rintro rfl; cases hp

/-- Operations under which a claim, while `Open`, can be won once: those in `A`
never open it again, and one in `W` that wins closes it. -/
structure Exclusive (h : Handler Op Res ε S) (I Open : S → Prop) (A W : Op → Prop)
    (won : (o : Op) → Res o → Prop) : Prop where
  inv : ∀ {o s}, A o ∨ W o → I s → I (h o s).2
  closed : ∀ {o s}, A o ∨ W o → I s → ¬ Open s → ¬ Open (h o s).2
  wins : ∀ {o s r}, W o → I s → (h o s).1 = .ok r → won o r → Open s ∧ ¬ Open (h o s).2

/-- The programs all still claim, or one has won, the claim is closed and the
others still claim. -/
def Contended (h : Handler Op Res ε S) (F : ε → Prop) (I Open : S → Prop) (A W : Op → Prop)
    (won : (o : Op) → Res o → Prop) (P : Pool Op Res ε α ι) (s : S) : Prop :=
  (∀ i, Claims h F I A W won (P i)) ∨
    ∃ w, (P w).Only A ∧ ¬ Open s ∧ ∀ i, i ≠ w → Claims h F I A W won (P i)

variable [DecidableEq ι] {Open : S → Prop}

/-- The effect of an operation of program `i`, when `i` still claims. -/
theorem Claims.effect {o : Op} {k : Except ε (Res o) → Prog Op Res ε α} {s : S}
    (hx : Exclusive h I Open A W won) (hI : I s) (hp : Claims h F I A W won (Prog.call o k)) :
    (A o ∨ W o) ∧ (Claims h F I A W won (k (h o s).1) ∨
      ((k (h o s).1).Only A ∧ Open s ∧ ¬ Open (h o s).2)) := by
  cases hp with
  | call ho hk hf => exact ⟨.inl ho, .inl (hk s hI)⟩
  | claim ho hwon hlost hf =>
    refine ⟨.inr ho, ?_⟩
    cases hr : (h o s).1 with
    | error e => exact .inl (hf e)
    | ok r =>
      by_cases hw : won o r
      · exact .inr ⟨hwon r hw, hx.wins ho hI hr hw⟩
      · exact .inl (hlost r hw)

theorem Claims.fault {o : Op} {k : Except ε (Res o) → Prog Op Res ε α} {e : ε} (he : F e)
    (hp : Claims h F I A W won (Prog.call o k)) : Claims h F I A W won (k (.error e)) := by
  cases hp with
  | call _ _ hf => exact hf e he
  | claim _ _ _ hf => exact hf e

/-- A step of program `i`, whose next program is `p`, when all still claim. -/
theorem Contended.of_claims {P : Pool Op Res ε α ι} {s : S} {i : ι} {p : Prog Op Res ε α}
    (hc : ∀ j, Claims h F I A W won (P j))
    (hp : Claims h F I A W won p ∨ p.Only A ∧ ¬ Open s) :
    Contended h F I Open A W won (update P i p) s := by
  rcases hp with hp | ⟨hp, hn⟩
  · have hall : ∀ j, Claims h F I A W won (update P i p j) :=
      (forall_update_iff P fun _ => Claims h F I A W won).mpr ⟨hp, fun j _ => hc j⟩
    exact .inl hall
  · refine .inr ⟨i, ?_, hn, fun j hj => ?_⟩
    · rwa [Function.update_self]
    · rw [Function.update_of_ne hj]
      exact hc j

/-- A step of program `i` when `w` has won. -/
theorem Contended.of_won {P : Pool Op Res ε α ι} {s : S} {i w : ι} {p : Prog Op Res ε α}
    (hw : (P w).Only A) (hn : ¬ Open s) (hc : ∀ j, j ≠ w → Claims h F I A W won (P j))
    (hp : if i = w then p.Only A else Claims h F I A W won p) :
    Contended h F I Open A W won (update P i p) s := by
  by_cases hiw : i = w
  · subst hiw
    rw [if_pos rfl] at hp
    refine .inr ⟨i, ?_, hn, fun j hj => ?_⟩
    · rwa [Function.update_self]
    · rw [Function.update_of_ne hj]
      exact hc j hj
  · rw [if_neg hiw] at hp
    have hall : ∀ j, j ≠ w → Claims h F I A W won (update P i p j) :=
      (forall_update_iff P fun j q => j ≠ w → Claims h F I A W won q).mpr
        ⟨fun _ => hp, fun j _ => hc j⟩
    refine .inr ⟨w, ?_, hn, hall⟩
    rwa [Function.update_of_ne (Ne.symm hiw)]

theorem Contended.step {P P' : Pool Op Res ε α ι} {s s' : S} (hx : Exclusive h I Open A W won)
    (hI : I s) (hc : Contended h F I Open A W won P s) (hs : Pool.Step h F P s P' s') :
    I s' ∧ Contended h F I Open A W won P' s' := by
  cases hs with
  | @effect i o k hi =>
    rcases hc with hc | ⟨w, hw, hn, hc⟩
    · obtain ⟨ho, hk⟩ := (hi ▸ hc i).effect hx hI
      exact ⟨hx.inv ho hI, .of_claims hc (hk.imp_right fun hk => ⟨hk.1, hk.2.2⟩)⟩
    · by_cases hiw : i = w
      · -- The winner goes on.
        have ho : A o ∧ ∀ r, (k r).Only A := by
          rwa [← hiw, hi] at hw
        have hn' : ¬ Open (h o s).2 := hx.closed (.inl ho.1) hI hn
        exact ⟨hx.inv (.inl ho.1) hI, .of_won hw hn' hc (by rw [if_pos hiw]; exact ho.2 _)⟩
      · -- The claim is closed, so another program does not win it.
        obtain ⟨ho, hk⟩ := (hi ▸ hc i hiw).effect hx hI
        have hk' := hk.resolve_right fun h => hn h.2.1
        have hn' : ¬ Open (h o s).2 := hx.closed ho hI hn
        exact ⟨hx.inv ho hI, .of_won hw hn' hc (by rwa [if_neg hiw])⟩
  | @fault i o k e hi he =>
    refine ⟨hI, ?_⟩
    rcases hc with hc | ⟨w, hw, hn, hc⟩
    · exact .of_claims hc (.inl ((hi ▸ hc i).fault he))
    · refine .of_won hw hn hc ?_
      split
      · rename_i hiw
        rw [← hiw, hi] at hw
        exact hw.2 _
      · rename_i hiw
        exact (hi ▸ hc i hiw).fault he

theorem Contended.reach {P₀ P : Pool Op Res ε α ι} {s₀ s : S} (hx : Exclusive h I Open A W won)
    (hI : I s₀) (hc : ∀ i, Claims h F I A W won (P₀ i)) (hr : Pool.Reach h F P₀ s₀ P s) :
    I s ∧ Contended h F I Open A W won P s := by
  induction hr with
  | start => exact ⟨hI, .inl hc⟩
  | step _ hs ih => exact ih.2.step hx ih.1 hs

/-- At most one program of a claim that can be won once returns. -/
theorem Claims.exclusive {P₀ P : Pool Op Res ε α ι} {s₀ s : S} (hx : Exclusive h I Open A W won)
    (hI : I s₀) (hc : ∀ i, Claims h F I A W won (P₀ i)) (hr : Pool.Reach h F P₀ s₀ P s)
    {i j : ι} {a b : α} (hi : P i = ret a) (hj : P j = ret b) : i = j := by
  rcases (Contended.reach hx hI hc hr).2 with hc | ⟨w, -, -, hc⟩
  · exact absurd hi ((hc i).ne_ret a)
  · have hw : ∀ {l c}, P l = ret c → l = w := fun hl =>
      Classical.byContradiction fun hne => (hc _ hne).ne_ret _ hl
    rw [hw hi, hw hj]

end Prog

end Gaia
