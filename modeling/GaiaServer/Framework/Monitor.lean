import GaiaServer.Framework.Interference
import GaiaServer.Framework.Trace
import Mathlib.Data.Fintype.Basic
import Mathlib.Logic.Relation

/-!
# Objects behind a lock

An object is used by several threads (`Monitor`). A call of one of its methods runs the
method's body, operation by operation. The methods that are `locked` hold the object's lock
from before their first operation until after their last, whichever way they end; the
operations of the others fall anywhere (`Monitor.Step`).

* `Reach.held`: the thread that is inside of a locked method is the one that holds the lock;
* `Reach.progress`: some thread can go on, unless all have ended;
* `Reach.refines`: if each locked method does to a part of the object what a call that takes
  effect at once does, whatever the other methods do meanwhile (`Refines`), that part, and what
  the threads have got, are those of such calls in the order in which the lock was released;
* `Reach.atomic`: so if all methods are locked, the object has been called by one thread after
  another, whenever the lock is free.
-/

namespace Gaia

open Function (update)

/-- Methods `c : Call` with results in `CRes c`, as programs of operations on a state `S`. -/
structure Monitor (Call : Type) (CRes : Call → Type) (Op : Type) (Res : Op → Type) (ε S : Type)
    where
  handler : Prog.Handler Op Res ε S
  body : (c : Call) → Prog Op Res ε (CRes c)
  locked : Call → Bool

namespace Monitor

variable {Call : Type} {CRes : Call → Type} {Op : Type} {Res : Op → Type} {ε α S ι : Type}

/-- A thread, which makes calls: between two of them, or inside of one, with what is left of
its body and with what follows. -/
inductive Worker (Call : Type) (CRes : Call → Type) (Op : Type) (Res : Op → Type) (ε α : Type)
  | outside (p : Prog Call CRes ε α)
  | inside (c : Call) (q : Prog Op Res ε (CRes c)) (k : Except ε (CRes c) → Prog Call CRes ε α)

/-- The threads, the one that holds the lock, and the object. -/
structure Config (Call : Type) (CRes : Call → Type) (Op : Type) (Res : Op → Type) (ε α S ι : Type)
    where
  workers : ι → Worker Call CRes Op Res ε α
  owner : Option ι
  state : S

/-- The threads before their first call. -/
def init (P₀ : Pool Call CRes ε α ι) (s₀ : S) : Config Call CRes Op Res ε α S ι where
  workers i := .outside (P₀ i)
  owner := none
  state := s₀

variable [DecidableEq ι] (M : Monitor Call CRes Op Res ε S)

/-- A thread outside, which goes on with `p`. -/
def Config.resume (C : Config Call CRes Op Res ε α S ι) (i : ι) (p : Prog Call CRes ε α) :
    Config Call CRes Op Res ε α S ι :=
  { C with workers := update C.workers i (.outside p) }

/-- A thread enters a method, if need be when the lock is free, takes its next operation
there, or leaves it. -/
inductive Step : Config Call CRes Op Res ε α S ι → Config Call CRes Op Res ε α S ι → Prop
  | enter {ws owner s i c k} (hi : ws i = .outside (.call c k))
      (hfree : M.locked c = true → owner = none) :
      Step ⟨ws, owner, s⟩ ⟨update ws i (.inside c (M.body c) k),
        if M.locked c then some i else owner, s⟩
  | act {ws owner s i c o q k} (hi : ws i = .inside c (.call o q) k) :
      Step ⟨ws, owner, s⟩ ⟨update ws i (.inside c (q (M.handler o s).1) k), owner,
        (M.handler o s).2⟩
  | leave {ws owner s i c r k} (hi : ws i = .inside c (Prog.lift r) k) :
      Step ⟨ws, owner, s⟩ ⟨update ws i (.outside (k r)), if M.locked c then none else owner, s⟩

/-- What the threads can come to. -/
inductive Reach (P₀ : Pool Call CRes ε α ι) (s₀ : S) : Config Call CRes Op Res ε α S ι → Prop
  | start : Reach P₀ s₀ (init P₀ s₀)
  | step {C C'} : Reach P₀ s₀ C → Step M C C' → Reach P₀ s₀ C'

/-- The methods, each taking effect at once. -/
def atomic : Prog.Handler Call CRes ε S := fun c s => (M.body c).run M.handler s

variable {M} {P₀ : Pool Call CRes ε α ι} {s₀ : S} {C : Config Call CRes Op Res ε α S ι}

/-- A thread after another one, or it itself, has gone on as `w`. -/
theorem update_inv {ws : ι → Worker Call CRes Op Res ε α} {i j : ι}
    {w w' : Worker Call CRes Op Res ε α} (h : update ws i w j = w') :
    j = i ∧ w = w' ∨ j ≠ i ∧ ws j = w' := by
  by_cases hji : j = i
  · subst hji
    rw [Function.update_self] at h
    exact .inl ⟨rfl, h⟩
  · rw [Function.update_of_ne hji] at h
    exact .inr ⟨hji, h⟩

/-! ## The lock -/

/-- Who is inside of a locked method holds the lock, and who holds it is inside of one. -/
structure Held (M : Monitor Call CRes Op Res ε S) (C : Config Call CRes Op Res ε α S ι) : Prop where
  inside : ∀ i c q k, C.workers i = .inside c q k → M.locked c = true → C.owner = some i
  owner : ∀ i, C.owner = some i → ∃ c q k, C.workers i = .inside c q k ∧ M.locked c = true

omit [DecidableEq ι] in
/-- Who is outside does not hold the lock. -/
theorem Held.not_owner (hh : Held M C) {i : ι} {p : Prog Call CRes ε α}
    (hi : C.workers i = .outside p) : C.owner ≠ some i := by
  intro ho
  obtain ⟨c, q, k, hin, -⟩ := hh.owner i ho
  rw [hi] at hin
  cases hin

omit [DecidableEq ι] in
/-- If all are outside, the lock is free. -/
theorem Held.free_of_outside (hh : Held M C) (hout : ∀ i, ∃ p, C.workers i = .outside p) :
    C.owner = none := by
  cases ho : C.owner with
  | none => rfl
  | some i =>
    obtain ⟨p, hi⟩ := hout i
    exact absurd ho (hh.not_owner hi)

theorem Held.step {C' : Config Call CRes Op Res ε α S ι} (hh : Held M C) (hs : Step M C C') :
    Held M C' := by
  cases hs with
  | @enter ws owner s i c k hi hfree =>
    refine ⟨fun j c' q k' hj hl => ?_, fun j hj => ?_⟩
    · rcases update_inv hj with ⟨rfl, he⟩ | ⟨-, hj⟩
      · cases he
        exact if_pos hl
      · have ho : owner = some j := hh.inside j c' q k' hj hl
        have hc : ¬ M.locked c = true := fun hc => by
          rw [hfree hc] at ho
          cases ho
        exact (if_neg hc).trans ho
    · by_cases hc : M.locked c = true
      · obtain rfl := Option.some.inj ((if_pos hc).symm.trans hj)
        exact ⟨c, _, k, Function.update_self .., hc⟩
      · have ho : owner = some j := (if_neg hc).symm.trans hj
        obtain ⟨c', q, k', hin, hl⟩ := hh.owner j ho
        have hji : j ≠ i := fun hji => hh.not_owner hi (hji ▸ ho)
        exact ⟨c', q, k', (Function.update_of_ne hji ..).trans hin, hl⟩
  | @act ws owner s i c o q k hi =>
    refine ⟨fun j c' q' k' hj hl => ?_, fun j hj => ?_⟩
    · rcases update_inv hj with ⟨rfl, he⟩ | ⟨-, hj⟩
      · cases he
        exact hh.inside j c _ k hi hl
      · exact hh.inside j c' q' k' hj hl
    · obtain ⟨c', q', k', hin, hl⟩ := hh.owner j hj
      by_cases hji : j = i
      · subst hji
        cases hi.symm.trans hin
        exact ⟨c, _, k, Function.update_self .., hl⟩
      · exact ⟨c', q', k', (Function.update_of_ne hji ..).trans hin, hl⟩
  | @leave ws owner s i c r k hi =>
    have hother : ∀ j, j ≠ i → owner = some j → ¬ M.locked c = true := fun j hji ho hc =>
      hji (Option.some.inj (ho.symm.trans (hh.inside i c _ k hi hc)))
    refine ⟨fun j c' q' k' hj hl => ?_, fun j hj => ?_⟩
    · rcases update_inv hj with ⟨-, he⟩ | ⟨hji, hj⟩
      · cases he
      · have ho : owner = some j := hh.inside j c' q' k' hj hl
        exact (if_neg (hother j hji ho)).trans ho
    · by_cases hc : M.locked c = true
      · cases (if_pos hc).symm.trans hj
      · have ho : owner = some j := (if_neg hc).symm.trans hj
        obtain ⟨c', q', k', hin, hl⟩ := hh.owner j ho
        have hji : j ≠ i := by
          rintro rfl
          cases hi.symm.trans hin
          exact hc hl
        exact ⟨c', q', k', (Function.update_of_ne hji ..).trans hin, hl⟩

omit [DecidableEq ι] in
theorem Held.init (M : Monitor Call CRes Op Res ε S) (P₀ : Pool Call CRes ε α ι) (s₀ : S) :
    Held M (init P₀ s₀ : Config Call CRes Op Res ε α S ι) := by
  refine ⟨fun i c q k hi => ?_, fun i hi => ?_⟩
  · cases hi
  · cases hi

theorem Held.resume (hh : Held M C) {i : ι} {p₀ : Prog Call CRes ε α}
    (hi : C.workers i = .outside p₀) (p : Prog Call CRes ε α) : Held M (C.resume i p) := by
  refine ⟨fun j c q k hj hl => ?_, fun j hj => ?_⟩
  · rcases update_inv hj with ⟨-, he⟩ | ⟨-, hj⟩
    · cases he
    · exact hh.inside j c q k hj hl
  · obtain ⟨c, q, k, hin, hl⟩ := hh.owner j hj
    have hji : j ≠ i := fun hji => hh.not_owner hi (hji ▸ hj)
    exact ⟨c, q, k, (Function.update_of_ne hji ..).trans hin, hl⟩

theorem Reach.held (hr : Reach M P₀ s₀ C) : Held M C := by
  induction hr with
  | start => exact .init M P₀ s₀
  | step _ hs ih => exact ih.step hs

/-- Some thread can go on, unless all have ended. -/
theorem Reach.progress (hr : Reach M P₀ s₀ C) :
    (∃ C', Step M C C') ∨ ∀ i, ∃ r, C.workers i = .outside (Prog.lift r) := by
  obtain ⟨ws, owner, s⟩ := C
  have hgo : ∀ i c q k, ws i = .inside c q k → ∃ C', Step M ⟨ws, owner, s⟩ C' := by
    intro i c q k hi
    cases q with
    | ret a => exact ⟨_, .leave (r := .ok a) hi⟩
    | raise e => exact ⟨_, .leave (r := .error e) hi⟩
    | call o q => exact ⟨_, .act hi⟩
  cases owner with
  | some i =>
    obtain ⟨c, q, k, hi, -⟩ := hr.held.owner i rfl
    exact .inl (hgo i c q k hi)
  | none =>
    by_cases h : ∀ i, ∃ r, ws i = .outside (Prog.lift r)
    · exact .inr h
    · obtain ⟨i, hi⟩ := not_forall.mp h
      refine .inl ?_
      cases hw : ws i with
      | inside c q k => exact hgo i c q k hw
      | outside p =>
        cases p with
        | ret a => exact absurd ⟨.ok a, hw⟩ hi
        | raise e => exact absurd ⟨.error e, hw⟩ hi
        | call c k => exact ⟨_, .enter hw fun _ => rfl⟩

/-! ## Methods at once -/

/-- No method raises of itself: what its body raises is its outcome. -/
def noFault : ε → Prop := fun _ => False

variable {T : Type} (M) (R : S → S → Prop) (F : ε → Prop) (I : S → Prop) (proj : S → T)
  (spec : Prog.Handler Call CRes ε T)

/-- The methods do to a part `proj` of the object what `spec` does at once. Those that hold the
lock may rely on `I`, and keep it, whatever the others do (`R`); one that does not is a single
operation, is such a step of the others, and may raise an exception in `F`. -/
structure Refines : Prop where
  others : Prog.Interference R
  stable : ∀ {s s'}, R s s' → I s → I s'
  same : ∀ {s s'}, R s s' → proj s' = proj s
  body : ∀ c, M.locked c = true → ∀ s, I s → (M.body c).Ensures M.handler R
    (fun r s' => I s' ∧ spec c (proj s) = (r, proj s')) s
  free : ∀ c, M.locked c = false → ∃ (o : Op) (f : Except ε (Res o) → Except ε (CRes c)),
    M.body c = .call o (fun r => Prog.lift (f r)) ∧ ∀ s, R s (M.handler o s).2 ∧
      ((∀ t, spec c t = (f (M.handler o s).1, t)) ∨ ∃ e, f (M.handler o s).1 = .error e ∧ F e)

/-- A thread that is inside of a method, with `q` left of its body, where the calls at once have
come to `p` and `t`: with the lock, it has not called yet, and what is left of the body will do
what the call does; without it, its operation and the call are yet to come, or have been. -/
def Inside (c : Call) (q : Prog Op Res ε (CRes c)) (k : Except ε (CRes c) → Prog Call CRes ε α)
    (p : Prog Call CRes ε α) (t : T) (s : S) : Prop :=
  (M.locked c = true ∧ p = .call c k ∧
    q.Ensures M.handler R (fun r s' => I s' ∧ spec c t = (r, proj s')) s) ∨
  (M.locked c = false ∧ q = M.body c ∧ p = .call c k) ∨
  (M.locked c = false ∧ ∃ r, q = Prog.lift r ∧ p = k r)

/-- Calls that take effect at once, which come to `P` and `t`, and the threads. -/
structure Sim (C : Config Call CRes Op Res ε α S ι) (P : Pool Call CRes ε α ι) (t : T) : Prop where
  outside : ∀ i p, C.workers i = .outside p → P i = p
  inside : ∀ i c q k, C.workers i = .inside c q k → Inside M R I proj spec c q k (P i) t C.state
  state : C.owner = none → I C.state ∧ proj C.state = t

variable {M R F I proj spec}

omit [DecidableEq ι] in
theorem Sim.init (hI : I s₀) :
    Sim M R I proj spec (init P₀ s₀ : Config Call CRes Op Res ε α S ι) P₀ (proj s₀) := by
  refine ⟨fun i p hi => ?_, fun i c q k hi => ?_, fun _ => ⟨hI, rfl⟩⟩
  · cases hi
    rfl
  · cases hi

omit [DecidableEq ι] in
/-- The steps of others leave a thread inside where it is. -/
theorem Inside.disturb (hM : Refines M R F I proj spec) {c : Call} {q : Prog Op Res ε (CRes c)}
    {k : Except ε (CRes c) → Prog Call CRes ε α} {p : Prog Call CRes ε α} {t : T} {s s' : S}
    (hin : Inside M R I proj spec c q k p t s) (hs : R s s') :
    Inside M R I proj spec c q k p t s' :=
  hin.imp_left fun ⟨hl, hp, hq⟩ => ⟨hl, hp, hq.disturb hM.others hs⟩

/-- A step that is one of a thread without the lock. -/
theorem Sim.disturb (hM : Refines M R F I proj spec) {ws : ι → Worker Call CRes Op Res ε α}
    {owner : Option ι} {s s' : S} {P : Pool Call CRes ε α ι} {t : T} {i : ι}
    {p : Prog Call CRes ε α} (hsim : Sim M R I proj spec ⟨ws, owner, s⟩ P t) (hs : R s s')
    {w : Worker Call CRes Op Res ε α}
    (hout : ∀ p', w = .outside p' → p = p')
    (hin : ∀ c q k, w = .inside c q k → Inside M R I proj spec c q k p t s') :
    Sim M R I proj spec ⟨update ws i w, owner, s'⟩ (update P i p) t := by
  refine ⟨fun j p' hj => ?_, fun j c q k hj => ?_, fun ho => ?_⟩
  · rcases update_inv hj with ⟨rfl, he⟩ | ⟨hji, hj⟩
    · rw [Function.update_self]
      exact hout p' he
    · rw [Function.update_of_ne hji]
      exact hsim.outside j p' hj
  · rcases update_inv hj with ⟨rfl, he⟩ | ⟨hji, hj⟩
    · rw [Function.update_self]
      exact hin c q k he
    · rw [Function.update_of_ne hji]
      exact (hsim.inside j c q k hj).disturb hM hs
  · obtain ⟨hI, hp⟩ := hsim.state ho
    exact ⟨hM.stable hs hI, (hM.same hs).trans hp⟩

/-- A thread between two calls goes on with something else. -/
theorem Sim.resume (hM : Refines M R F I proj spec) {P : Pool Call CRes ε α ι} {t : T}
    (hsim : Sim M R I proj spec C P t) (i : ι) (p : Prog Call CRes ε α) :
    Sim M R I proj spec (C.resume i p) (update P i p) t :=
  hsim.disturb hM (hM.others.refl C.state) (fun _ he => by cases he; rfl)
    fun _ _ _ he => by cases he

/-- A step of the threads is a call that takes effect, one that fails, or nothing. -/
theorem Sim.step (hM : Refines M R F I proj spec) {C' : Config Call CRes Op Res ε α S ι}
    {P : Pool Call CRes ε α ι} {t : T} (hh : Held M C) (hsim : Sim M R I proj spec C P t)
    (hs : Step M C C') : ∃ x P' t', Pool.Traced spec F P t x P' t' ∧
      Sim M R I proj spec C' P' t' := by
  have ht : Pool.Traced spec F P t [] P t := .start
  cases hs with
  | @enter ws owner s i c k hi hfree =>
    have hP : update P i (.call c k) = P := by
      rw [← hsim.outside i _ hi, Function.update_eq_self]
    cases hc : M.locked c with
    | true =>
      obtain ⟨hI, rfl⟩ := hsim.state (hfree hc)
      refine ⟨[], P, _, ht, fun j p hj => ?_, fun j c' q k' hj => ?_, fun ho => ?_⟩
      · rcases update_inv hj with ⟨-, he⟩ | ⟨-, hj⟩
        · cases he
        · exact hsim.outside j p hj
      · rcases update_inv hj with ⟨rfl, he⟩ | ⟨-, hj⟩
        · cases he
          exact .inl ⟨hc, hsim.outside j _ hi, hM.body c hc s hI⟩
        · exact hsim.inside j c' q k' hj
      · cases ho
    | false =>
      have hsim' := hsim.disturb (i := i) (p := .call c k) (w := .inside c (M.body c) k) hM
        (hM.others.refl s) (fun _ he => by cases he) fun c' q k' he => by
          cases he
          exact .inr (.inl ⟨hc, rfl, rfl⟩)
      rw [hP] at hsim'
      exact ⟨[], P, t, ht, hsim'⟩
  | @act ws owner s i c o q k hi =>
    rcases hsim.inside i c _ k hi with ⟨hc, hP, hq⟩ | ⟨hc, hq, hP⟩ | ⟨-, r, hq, -⟩
    · -- an operation with the lock, which no other thread holds
      have how : owner = some i := hh.inside i c _ k hi hc
      refine ⟨[], P, t, ht, fun j p hj => ?_, fun j c' q' k' hj => ?_, fun ho => ?_⟩
      · rcases update_inv hj with ⟨-, he⟩ | ⟨-, hj⟩
        · cases he
        · exact hsim.outside j p hj
      · rcases update_inv hj with ⟨rfl, he⟩ | ⟨hji, hj⟩
        · cases he
          exact .inl ⟨hc, hP, hq.of_call hM.others⟩
        · rcases hsim.inside j c' q' k' hj with ⟨hc', -⟩ | hin
          · have how' : owner = some j := hh.inside j c' q' k' hj hc'
            exact absurd (Option.some.inj (how'.symm.trans how)) hji
          · exact .inr hin
      · cases how.symm.trans ho
    · -- the operation of a method without the lock, at which the call takes effect
      obtain ⟨o', f, hbody, hop⟩ := hM.free c hc
      rw [hbody] at hq
      cases hq
      obtain ⟨hR, hspec⟩ := hop s
      have hsim' := hsim.disturb (i := i) (p := k (f (M.handler o s).1))
        (w := .inside c (Prog.lift (f (M.handler o s).1)) k) hM hR (fun _ he => by cases he)
        fun c' q k' he => by
          cases he
          exact .inr (.inr ⟨hc, _, rfl, rfl⟩)
      rcases hspec with hspec | ⟨e, he, hF⟩
      · have ht' := ht.effect hP
        rw [hspec t] at ht'
        exact ⟨_, _, _, ht', hsim'⟩
      · have hgo : k (f (M.handler o s).1) = k (.error e) := congrArg k he
        rw [hgo] at hsim'
        exact ⟨_, _, _, ht.fault hP hF, hsim'⟩
    · cases r <;> cases hq
  | @leave ws owner s i c r k hi =>
    rcases hsim.inside i c _ k hi with ⟨hc, hP, hq⟩ | ⟨hc, hq, -⟩ | ⟨hc, r', hq, hP⟩
    · -- the call takes effect
      obtain ⟨hI, hspec⟩ := hq.of_lift hM.others
      have how : owner = some i := hh.inside i c _ k hi hc
      have ht' := ht.effect hP
      rw [hspec] at ht'
      refine ⟨_, _, _, ht', fun j p hj => ?_, fun j c' q' k' hj => ?_, fun _ => ⟨hI, rfl⟩⟩
      · rcases update_inv hj with ⟨rfl, he⟩ | ⟨hji, hj⟩
        · cases he
          exact Function.update_self ..
        · exact (Function.update_of_ne hji ..).trans (hsim.outside j p hj)
      · rcases update_inv hj with ⟨-, he⟩ | ⟨hji, hj⟩
        · cases he
        · rw [Function.update_of_ne hji]
          rcases hsim.inside j c' q' k' hj with ⟨hc', -⟩ | hin
          · have how' : owner = some j := hh.inside j c' q' k' hj hc'
            exact absurd (Option.some.inj (how'.symm.trans how)) hji
          · exact .inr hin
    · obtain ⟨o, f, hbody, -⟩ := hM.free c hc
      rw [hbody] at hq
      cases r <;> cases hq
    · have hr : r = r' := by
        cases r <;> cases r' <;> cases hq <;> rfl
      subst hr
      have hsim' := hsim.disturb (i := i) (p := k r) (w := .outside (k r)) hM (hM.others.refl s)
        (fun p' he => by cases he; rfl) fun _ _ _ he => by cases he
      have hP' : update P i (k r) = P := by rw [← hP, Function.update_eq_self]
      rw [hP'] at hsim'
      refine ⟨[], P, t, ht, ?_⟩
      rwa [hc]

theorem Reach.sim (hM : Refines M R F I proj spec) (hI : I s₀) (hr : Reach M P₀ s₀ C) :
    ∃ x P t, Pool.Traced spec F P₀ (proj s₀) x P t ∧ Sim M R I proj spec C P t := by
  induction hr with
  | start => exact ⟨[], P₀, _, .start, .init hI⟩
  | step hr hs ih =>
    obtain ⟨x, P, t, ht, hsim⟩ := ih
    obtain ⟨x', P', t', ht', hsim'⟩ := hsim.step hM hr.held hs
    exact ⟨_, P', t', ht.trans ht', hsim'⟩

/-- Whenever the lock is free, the part of the object is what calls at once have made it, with
what the threads between two calls have got; and `I` holds. -/
theorem Reach.refines (hM : Refines M R F I proj spec) (hI : I s₀) (hr : Reach M P₀ s₀ C)
    (hfree : C.owner = none) : I C.state ∧ ∃ x P,
      Pool.Traced spec F P₀ (proj s₀) x P (proj C.state) ∧
      ∀ i p, C.workers i = .outside p → P i = p := by
  obtain ⟨x, P, t, ht, hsim⟩ := hr.sim hM hI
  obtain ⟨hC, rfl⟩ := hsim.state hfree
  exact ⟨hC, x, P, ht, hsim.outside⟩

/-! ## Every method locked -/

/-- Methods that all hold the lock take effect at once. -/
theorem refines_atomic (hall : ∀ c, M.locked c = true) :
    Refines M Eq noFault (fun _ => True) id M.atomic where
  others := ⟨fun _ => rfl, fun h h' => h.trans h'⟩
  stable := fun _ _ => trivial
  same := fun h => h.symm
  body := fun c _ s _ => Prog.ensures_eq_iff.mpr ⟨trivial, rfl⟩
  free := fun c hc => by
    rw [hall c] at hc
    cases hc

/-- Whenever the lock is free, the methods have taken effect one at a time. -/
theorem Reach.atomic (hall : ∀ c, M.locked c = true) (hr : Reach M P₀ s₀ C)
    (hfree : C.owner = none) : ∃ t P, Pool.Traced M.atomic noFault P₀ s₀ t P C.state ∧
      ∀ i, C.workers i = .outside (P i) := by
  obtain ⟨-, t, P, ht, hout⟩ := hr.refines (refines_atomic hall) trivial hfree
  refine ⟨t, P, ht, fun i => ?_⟩
  cases hw : C.workers i with
  | outside p => rw [hout i p hw]
  | inside c q k =>
    have how := hr.held.inside i c q k hw (hall c)
    rw [hfree] at how
    cases how

theorem Reach.steps {C' : Config Call CRes Op Res ε α S ι} (hr : Reach M P₀ s₀ C)
    (hs : Relation.ReflTransGen (Step M) C C') : Reach M P₀ s₀ C' := by
  induction hs with
  | refl => exact hr
  | tail _ hs ih => exact ih.step hs

/-- A thread makes a call while the others wait outside. -/
theorem steps_call {i : ι} {c : Call} {k} (hi : C.workers i = .outside (.call c k))
    (hfree : C.owner = none) : Relation.ReflTransGen (Step M) C
      ⟨update C.workers i (.outside (k (M.atomic c C.state).1)), none, (M.atomic c C.state).2⟩ := by
  obtain ⟨ws, owner, s⟩ := C
  obtain rfl : owner = none := hfree
  have hbody : ∀ (q : Prog Op Res ε (CRes c)) {ws : ι → Worker Call CRes Op Res ε α} {s : S},
      ws i = .inside c q k →
      Relation.ReflTransGen (Step M) ⟨ws, if M.locked c then some i else none, s⟩
        ⟨update ws i (.outside (k (q.run M.handler s).1)), none, (q.run M.handler s).2⟩ := by
    intro q
    have hleave : ∀ {ws : ι → Worker Call CRes Op Res ε α} {s : S} (r : Except ε (CRes c)),
        ws i = .inside c (Prog.lift r) k →
        Relation.ReflTransGen (Step M) ⟨ws, if M.locked c then some i else none, s⟩
          ⟨update ws i (.outside (k r)), none, s⟩ := by
      intro ws s r hw
      refine .single ?_
      by_cases hc : M.locked c = true
      · have hs : Step M ⟨ws, some i, s⟩ ⟨update ws i (.outside (k r)), _, s⟩ := .leave hw
        rw [if_pos hc] at hs
        rwa [if_pos hc]
      · have hs : Step M ⟨ws, none, s⟩ ⟨update ws i (.outside (k r)), _, s⟩ := .leave hw
        rw [if_neg hc] at hs
        rwa [if_neg hc]
    induction q with
    | ret a => exact fun hw => hleave (.ok a) hw
    | raise e => exact fun hw => hleave (.error e) hw
    | call o q ih =>
      intro ws s hw
      have hs := ih (M.handler o s).1 (s := (M.handler o s).2)
        (Function.update_self i (.inside c (q (M.handler o s).1) k) ws)
      rw [Function.update_idem] at hs
      exact .head (.act hw) hs
  have hs := hbody (M.body c) (s := s) (Function.update_self i (.inside c (M.body c) k) ws)
  rw [Function.update_idem] at hs
  exact .head (.enter hi fun _ => rfl) hs

/-- The same, of a call whose outcome is known. -/
theorem steps_returns {i : ι} {c : Call} {k} {r : Except ε (CRes c)} {s : S}
    (hi : C.workers i = .outside (.call c k)) (hfree : C.owner = none)
    (hc : M.atomic c C.state = (r, s)) :
    Relation.ReflTransGen (Step M) C ⟨update C.workers i (.outside (k r)), none, s⟩ := by
  have hs := steps_call (M := M) hi hfree
  rwa [hc] at hs

/-- The same, from a point that can be reached. -/
theorem Reach.run_call (hr : Reach M P₀ s₀ C) {i : ι} {c : Call} {k}
    (hi : C.workers i = .outside (.call c k)) (hfree : C.owner = none) :
    Reach M P₀ s₀ ⟨update C.workers i (.outside (k (M.atomic c C.state).1)), none,
      (M.atomic c C.state).2⟩ :=
  hr.steps (steps_call hi hfree)

/-- A thread runs to its end while the others wait outside. -/
theorem Reach.run_thread (hr : Reach M P₀ s₀ C) (hfree : C.owner = none) {i : ι}
    {p : Prog Call CRes ε α} (hi : C.workers i = .outside p) :
    Reach M P₀ s₀ ⟨update C.workers i (.outside (Prog.lift (p.run M.atomic C.state).1)), none,
      (p.run M.atomic C.state).2⟩ := by
  obtain ⟨ws, owner, s⟩ := C
  obtain rfl : owner = none := hfree
  induction p generalizing ws s with
  | ret a =>
    have he : update ws i (.outside (.ret a)) = ws := by rw [← hi, Function.update_eq_self]
    show Reach M P₀ s₀ ⟨update ws i (.outside (.ret a)), none, s⟩
    rwa [he]
  | raise e =>
    have he : update ws i (.outside (.raise e)) = ws := by rw [← hi, Function.update_eq_self]
    show Reach M P₀ s₀ ⟨update ws i (.outside (.raise e)), none, s⟩
    rwa [he]
  | call c k ih =>
    have hs := ih _ _ _ (hr.run_call hi rfl) (Function.update_self ..)
    rwa [Function.update_idem] at hs

/-- Finitely many threads can all run to their ends. -/
theorem exists_ended [Fintype ι] (M : Monitor Call CRes Op Res ε S) (P₀ : Pool Call CRes ε α ι)
    (s₀ : S) : ∃ C : Config Call CRes Op Res ε α S ι, Reach M P₀ s₀ C ∧
      ∀ i, ∃ r, C.workers i = .outside (Prog.lift r) := by
  have hall : ∀ is : List ι, ∃ C : Config Call CRes Op Res ε α S ι, Reach M P₀ s₀ C ∧
      C.owner = none ∧ (∀ i, ∃ p, C.workers i = .outside p) ∧
      ∀ i ∈ is, ∃ r, C.workers i = .outside (Prog.lift r) := by
    intro is
    induction is with
    | nil => exact ⟨init P₀ s₀, .start, rfl, fun i => ⟨_, rfl⟩, by simp⟩
    | cons i is ih =>
      obtain ⟨C, hr, hfree, hout, hend⟩ := ih
      obtain ⟨p, hp⟩ := hout i
      refine ⟨_, hr.run_thread hfree hp, rfl, fun j => ?_, fun j hj => ?_⟩
      · by_cases hji : j = i
        · subst hji
          exact ⟨_, Function.update_self ..⟩
        · obtain ⟨p', hp'⟩ := hout j
          exact ⟨p', (Function.update_of_ne hji ..).trans hp'⟩
      · by_cases hji : j = i
        · subst hji
          exact ⟨_, Function.update_self ..⟩
        · obtain ⟨r, hr'⟩ := hend j ((List.mem_cons.mp hj).resolve_left hji)
          exact ⟨r, (Function.update_of_ne hji ..).trans hr'⟩
  obtain ⟨C, hr, -, -, hend⟩ := hall Finset.univ.toList
  exact ⟨C, hr, fun i => hend i (by simp)⟩

end Monitor

end Gaia
