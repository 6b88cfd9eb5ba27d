import GaiaServer.Framework.Monitor

/-!
# Methods that take effect at a point

A program is linear (`Prog.Linear`) if, whatever others do between its operations, it takes
effect at one of them. What it reads before, it could read again: the rest of it does what the
whole would do. From that operation on its outcome is settled (`Prog.Settled`), and it changes
nothing.

If all methods of an object are linear (`Monitor.Linearizable`), the object is at all times what
calls at once have made it, with or without a lock (`Monitor.Reach.linearizable`). The order of
these calls goes on as the threads do (`Monitor.Linearized.steps`): a call that has returned is
before one that has not been made.
-/

namespace Gaia

open Function (update)

variable {Op : Type} {Res : Op → Type} {ε α S : Type}

namespace Prog

variable (h : Handler Op Res ε S) (R : S → S → Prop)

/-- It ends in `r`, whatever others do, and changes nothing. -/
def Settled (r : Except ε α) : Prog Op Res ε α → S → Prop
  | ret a, _ => r = .ok a
  | raise e, _ => r = .error e
  | call o k, s => ∀ s', R s s' → (h o s').2 = s' ∧ (k (h o s').1).Settled r s'

/-- It reads what it could read again, until it takes effect. -/
def Linear : Prog Op Res ε α → S → Prop
  | ret _, _ => True
  | raise _, _ => True
  | call o k, s => ∀ s', R s s' →
      ((h o s').2 = s' ∧ (k (h o s').1).Linear s' ∧
        ∀ t, R s' t → (k (h o s').1).run h t = (call o k).run h t) ∨
      ((h o s').2 = ((call o k).run h s').2 ∧
        (k (h o s').1).Settled h R ((call o k).run h s').1 (h o s').2)

variable {h R} {s s' : S}

theorem settled_lift (r : Except ε α) (s : S) : (lift r : Prog Op Res ε α).Settled h R r s := by
  cases r <;> rfl

theorem Settled.lift_inj {r r' : Except ε α}
    (hp : (lift r' : Prog Op Res ε α).Settled h R r s) : r = r' := by
  cases r' <;> exact hp

/-- The only operation of a program. -/
theorem linear_single {o : Op} {k : Except ε (Res o) → Prog Op Res ε α}
    (hk : ∀ r, ∃ r', k r = lift r') (s : S) : (call o k).Linear h R s := by
  intro s' _
  obtain ⟨r, hr⟩ := hk (h o s').1
  rw [run_call, hr, run_lift]
  exact .inr ⟨rfl, settled_lift r _⟩

theorem linear_perform (o : Op) (s : S) : (perform o).Linear h R s :=
  linear_single (fun r => ⟨r, rfl⟩) s

theorem linear_perform_bind {o : Op} {f : Res o → Prog Op Res ε α}
    (hf : ∀ a, ∃ r, f a = lift r) (s : S) : ((perform o).bind f).Linear h R s := by
  refine linear_single (fun r => ?_) s
  cases r with
  | error e => exact ⟨.error e, rfl⟩
  | ok a => exact hf a

section

variable (hR : Interference R)
include hR

theorem Settled.disturb {r : Except ε α} {p : Prog Op Res ε α} (hp : p.Settled h R r s)
    (hs : R s s') : p.Settled h R r s' := by
  cases p with
  | ret a => exact hp
  | raise e => exact hp
  | call o k => exact fun t ht => hp t (hR.trans hs ht)

theorem Linear.disturb {p : Prog Op Res ε α} (hp : p.Linear h R s) (hs : R s s') :
    p.Linear h R s' := by
  cases p with
  | ret a => trivial
  | raise e => trivial
  | call o k => exact fun t ht => hp t (hR.trans hs ht)

theorem Settled.run {r : Except ε α} {p : Prog Op Res ε α} (hp : p.Settled h R r s) :
    p.run h s = (r, s) := by
  induction p generalizing s with
  | ret a => rw [run_ret, show r = .ok a from hp]
  | raise e => rw [run_raise, show r = .error e from hp]
  | call o k ih =>
    obtain ⟨hs, hk⟩ := hp s (hR.refl s)
    rw [run_call, hs]
    exact ih _ hk

/-- An operation whose result stays, or settles the outcome. -/
theorem linear_call {o : Op} {k : Except ε (Res o) → Prog Op Res ε α}
    (ho : ∀ s', R s s' →
      ((∀ t, R s' t → h o t = ((h o s').1, t)) ∧ (k (h o s').1).Linear h R s') ∨
      ((h o s').2 = s' ∧ ∃ r, (k (h o s').1).Settled h R r s')) : (call o k).Linear h R s := by
  intro s' hs
  rcases ho s' hs with ⟨hstays, hk⟩ | ⟨hsame, r, hk⟩
  · have hsame : (h o s').2 = s' := congrArg Prod.snd (hstays s' (hR.refl s'))
    refine .inl ⟨hsame, hk, fun t ht => ?_⟩
    rw [run_call, hstays t ht]
  · have hrun : (call o k).run h s' = (r, s') := by
      rw [run_call, hsame, hk.run hR]
    rw [hrun, hsame]
    exact .inr ⟨rfl, hk⟩

end

end Prog

namespace Monitor

open Prog (Interference)

variable {Call : Type} {CRes : Call → Type} {ι : Type} [DecidableEq ι]
  {M : Monitor Call CRes Op Res ε S} {R : S → S → Prop}
  {P₀ P : Pool Call CRes ε α ι} {s₀ : S} {C C' : Config Call CRes Op Res ε α S ι}

/-- Each method takes effect at a point, whatever others do, and is itself such a step of
others. -/
structure Linearizable (M : Monitor Call CRes Op Res ε S) (R : S → S → Prop) : Prop where
  others : Interference R
  linear : ∀ c s, (M.body c).Linear M.handler R s
  step : ∀ c s, R s (M.atomic c s).2

omit [DecidableEq ι] in
theorem Linearizable.after (hM : Linearizable M R) (s : S) (t : List (ι × Call)) :
    R s (Pool.after M.atomic s t) :=
  List.foldlRecOn t _ (hM.others.refl s) fun s' hs x _ => hM.others.trans hs (hM.step x.2 s')

/-- A thread that is inside of a method, with `q` left of its body, where the calls at once have
come to `p`: its call is yet to take effect, or has. -/
def Pending (M : Monitor Call CRes Op Res ε S) (R : S → S → Prop) (c : Call)
    (q : Prog Op Res ε (CRes c)) (k : Except ε (CRes c) → Prog Call CRes ε α)
    (p : Prog Call CRes ε α) (s : S) : Prop :=
  (p = .call c k ∧ q.Linear M.handler R s ∧
    ∀ t, R s t → q.run M.handler t = (M.body c).run M.handler t) ∨
  ∃ r, p = k r ∧ q.Settled M.handler R r s

/-- Calls at once, which come to `P` and to the state of the threads. -/
structure Linearized (M : Monitor Call CRes Op Res ε S) (R : S → S → Prop)
    (C : Config Call CRes Op Res ε α S ι) (P : Pool Call CRes ε α ι) : Prop where
  outside : ∀ i p, C.workers i = .outside p → P i = p
  inside : ∀ i c q k, C.workers i = .inside c q k → Pending M R c q k (P i) C.state

omit [DecidableEq ι] in
theorem Linearized.init (M : Monitor Call CRes Op Res ε S) (R : S → S → Prop)
    (P₀ : Pool Call CRes ε α ι) (s₀ : S) : Linearized M R (init P₀ s₀) P₀ := by
  refine ⟨fun i p hi => ?_, fun i c q k hi => ?_⟩
  · cases hi
    rfl
  · cases hi

omit [DecidableEq ι] in
/-- The steps of others leave a thread inside where it is. -/
theorem Pending.disturb (hR : Interference R) {c : Call} {q : Prog Op Res ε (CRes c)}
    {k : Except ε (CRes c) → Prog Call CRes ε α} {p : Prog Call CRes ε α} {s s' : S}
    (hp : Pending M R c q k p s) (hs : R s s') : Pending M R c q k p s' := by
  rcases hp with ⟨hp, hq, hrun⟩ | ⟨r, hp, hq⟩
  · exact .inl ⟨hp, hq.disturb hR hs, fun t ht => hrun t (hR.trans hs ht)⟩
  · exact .inr ⟨r, hp, hq.disturb hR hs⟩

/-- A thread, where the calls at once have come to `p`, goes on as `w`. -/
theorem Linearized.goOn (hR : Interference R) {ws : ι → Worker Call CRes Op Res ε α}
    {owner owner' : Option ι} {s s' : S} (hl : Linearized M R ⟨ws, owner, s⟩ P) (hs : R s s')
    {i : ι} {p : Prog Call CRes ε α} {w : Worker Call CRes Op Res ε α}
    (hout : ∀ p', w = .outside p' → p = p')
    (hin : ∀ c q k, w = .inside c q k → Pending M R c q k p s') :
    Linearized M R ⟨update ws i w, owner', s'⟩ (update P i p) := by
  refine ⟨fun j p' hj => ?_, fun j c q k hj => ?_⟩
  · rcases update_inv hj with ⟨rfl, he⟩ | ⟨hji, hj⟩
    · rw [Function.update_self]
      exact hout p' he
    · rw [Function.update_of_ne hji]
      exact hl.outside j p' hj
  · rcases update_inv hj with ⟨rfl, he⟩ | ⟨hji, hj⟩
    · rw [Function.update_self]
      exact hin c q k he
    · rw [Function.update_of_ne hji]
      exact (hl.inside j c q k hj).disturb hR hs

/-- A step of the threads is a call that takes effect, or none. -/
theorem Linearized.step (hM : Linearizable M R) (hl : Linearized M R C P) (hs : Step M C C') :
    ∃ t P', Pool.Traced M.atomic noFault P C.state t P' C'.state ∧ Linearized M R C' P' := by
  have hR := hM.others
  have hnone : Pool.Traced M.atomic noFault P C.state [] P C.state := .start
  cases hs with
  | @enter ws owner s i c k hi hfree =>
    refine ⟨[], update P i (P i), ?_, hl.goOn hR (hR.refl s) (fun _ he => by cases he) ?_⟩
    · rwa [Function.update_eq_self]
    · intro c' q k' he
      cases he
      exact .inl ⟨hl.outside i _ hi, hM.linear c s, fun _ _ => rfl⟩
  | @act ws owner s i c o q k hi =>
    rcases hl.inside i c _ k hi with ⟨hp, hq, hrun⟩ | ⟨r, hp, hq⟩
    · rcases hq s (hR.refl s) with ⟨hsame, hq', hrun'⟩ | ⟨hstate, hq'⟩
      · -- an operation that reads
        rw [hsame]
        refine ⟨[], update P i (P i), ?_, hl.goOn hR (hR.refl s) (fun _ he => by cases he) ?_⟩
        · rwa [Function.update_eq_self]
        · intro c' q' k' he
          cases he
          exact .inl ⟨hp, hq', fun t ht => (hrun' t ht).trans (hrun t ht)⟩
      · -- the operation at which the call takes effect
        have hcall : (Prog.call o q).run M.handler s = M.atomic c s := hrun s (hR.refl s)
        rw [hcall] at hstate hq'
        have ht := hnone.effect hp
        rw [← hstate] at ht
        refine ⟨_, _, ht, hl.goOn hR ?_ (fun _ he => by cases he) ?_⟩
        · rw [hstate]
          exact hM.step c s
        · intro c' q' k' he
          cases he
          exact .inr ⟨_, rfl, hq'⟩
    · -- an operation after that
      obtain ⟨hsame, hq'⟩ := hq s (hR.refl s)
      rw [hsame]
      refine ⟨[], update P i (P i), ?_, hl.goOn hR (hR.refl s) (fun _ he => by cases he) ?_⟩
      · rwa [Function.update_eq_self]
      · intro c' q' k' he
        cases he
        exact .inr ⟨r, hp, hq'⟩
  | @leave ws owner s i c r k hi =>
    rcases hl.inside i c _ k hi with ⟨hp, -, hrun⟩ | ⟨r', hp, hq⟩
    · -- the call takes effect
      have hcall : M.atomic c s = (r, s) := by
        have hcall := hrun s (hR.refl s)
        rw [Prog.run_lift] at hcall
        exact hcall.symm
      have ht := hnone.effect hp
      rw [hcall] at ht
      exact ⟨_, _, ht, hl.goOn hR (hR.refl s) (fun _ he => by cases he; rfl)
        fun _ _ _ he => by cases he⟩
    · obtain rfl := hq.lift_inj
      refine ⟨[], update P i (P i), ?_, hl.goOn hR (hR.refl s) (fun _ he => ?_)
        fun _ _ _ he => by cases he⟩
      · rwa [Function.update_eq_self]
      · cases he
        exact hp

/-- The steps that follow add calls after those before. -/
theorem Linearized.steps (hM : Linearizable M R) (hl : Linearized M R C P)
    (hs : Relation.ReflTransGen (Step M) C C') :
    ∃ t P', Pool.Traced M.atomic noFault P C.state t P' C'.state ∧ Linearized M R C' P' := by
  induction hs with
  | refl => exact ⟨[], P, .start, hl⟩
  | tail _ hs ih =>
    obtain ⟨t, P', ht, hl'⟩ := ih
    obtain ⟨u, P'', hu, hl''⟩ := hl'.step hM hs
    exact ⟨t ++ u, P'', ht.trans hu, hl''⟩

/-- The state is what calls at once have made it, with what the threads have got. -/
theorem Reach.linearizable (hM : Linearizable M R) (hr : Reach M P₀ s₀ C) :
    ∃ t P, Pool.Traced M.atomic noFault P₀ s₀ t P C.state ∧ Linearized M R C P := by
  induction hr with
  | start => exact ⟨[], P₀, .start, .init M R P₀ s₀⟩
  | step _ hs ih =>
    obtain ⟨t, P, ht, hl⟩ := ih
    obtain ⟨u, P', hu, hl'⟩ := hl.step hM hs
    exact ⟨t ++ u, P', ht.trans hu, hl'⟩

end Monitor

end Gaia
