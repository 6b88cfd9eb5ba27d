import Mathlib.Logic.Function.Basic
import Mathlib.Tactic.Common

/-!
# Programs over atomic operations

A function that talks to outside services is a tree (`Prog`): it ends with a
value or an exception, or issues one operation and goes on with that
operation's result, which may itself be an exception. What the operations do is
given apart from the program, by a handler on a state `S`, and a program is read
in two ways:

* `Prog.run`: alone, every operation taking effect (`run_bind`);
* `Prog.Exec`: alone, but each operation either takes effect or raises any
  exception without effect (`Exec.bind_inv`; `Exec.of_run`: a run is one such
  execution).

The third reading, several programs interleaved, is `Framework.Pool`.
`Prog.RaisesOnly E` bounds the exceptions that a run ends with (`raisesOnly_bind`).
`Prog.Only A` bounds the operations a program can issue, whatever results it
gets: one that only reads leaves the state as it is (`Exec.only_reads`).
-/

namespace Gaia

/-- A program that issues operations `o : Op` with results in `Res o`, raises
exceptions in `ε` and returns values in `α`. -/
inductive Prog (Op : Type) (Res : Op → Type) (ε : Type) (α : Type) : Type
  | ret (a : α)
  | raise (e : ε)
  | call (o : Op) (k : Except ε (Res o) → Prog Op Res ε α)

namespace Prog

variable {Op : Type} {Res : Op → Type} {ε α β : Type}

/-- One program after another. -/
def bind : Prog Op Res ε α → (α → Prog Op Res ε β) → Prog Op Res ε β
  | ret a, f => f a
  | raise e, _ => raise e
  | call o k, f => call o fun r => (k r).bind f

/-- `try … except`: the exceptions of a program, handled. -/
def tryCatch : Prog Op Res ε α → (ε → Prog Op Res ε α) → Prog Op Res ε α
  | ret a, _ => ret a
  | raise e, g => g e
  | call o k, g => call o fun r => (k r).tryCatch g

/-- `try … finally`: `fin` runs after the program, whichever way it ends; an
exception of `fin` replaces the program's. -/
def tryFinally : Prog Op Res ε α → Prog Op Res ε Unit → Prog Op Res ε α
  | ret a, fin => fin.bind fun _ => ret a
  | raise e, fin => fin.bind fun _ => raise e
  | call o k, fin => call o fun r => (k r).tryFinally fin

instance : Monad (Prog Op Res ε) where
  pure := ret
  bind := bind

/-- A computation that issues no operation. -/
def lift : Except ε α → Prog Op Res ε α
  | .ok a => ret a
  | .error e => raise e

/-- Issue `o`; its exception is the program's. -/
def perform (o : Op) : Prog Op Res ε (Res o) := call o lift

@[simp] theorem bind_eq (p : Prog Op Res ε α) (f : α → Prog Op Res ε β) : p >>= f = p.bind f := rfl

@[simp] theorem pure_eq (a : α) : (pure a : Prog Op Res ε α) = ret a := rfl

@[simp] theorem map_eq (f : α → β) (p : Prog Op Res ε α) :
    f <$> p = p.bind fun a => ret (f a) := rfl

@[simp] theorem ret_bind (a : α) (f : α → Prog Op Res ε β) :
    (ret a : Prog Op Res ε α).bind f = f a := rfl

@[simp] theorem lift_ok (a : α) : (lift (.ok a) : Prog Op Res ε α) = ret a := rfl

@[simp] theorem lift_error (e : ε) : (lift (.error e) : Prog Op Res ε α) = raise e := rfl

theorem bind_assoc {γ : Type} (p : Prog Op Res ε α) (f : α → Prog Op Res ε β)
    (g : β → Prog Op Res ε γ) : (p.bind f).bind g = p.bind fun a => (f a).bind g := by
  induction p with
  | ret a => rfl
  | raise e => rfl
  | call o k ih => exact congrArg (call o) (funext fun r => ih r)

/-! ## Running alone -/

/-- What the operations do. -/
abbrev Handler (Op : Type) (Res : Op → Type) (ε S : Type) := (o : Op) → S → Except ε (Res o) × S

variable {S : Type} (h : Handler Op Res ε S)

/-- The run of a program alone, every operation taking effect. -/
def run : Prog Op Res ε α → S → Except ε α × S
  | ret a, s => (.ok a, s)
  | raise e, s => (.error e, s)
  | call o k, s => (k (h o s).1).run (h o s).2

@[simp] theorem run_ret (a : α) (s : S) : (ret a : Prog Op Res ε α).run h s = (.ok a, s) := rfl

@[simp] theorem run_raise (e : ε) (s : S) :
    (raise e : Prog Op Res ε α).run h s = (.error e, s) := rfl

theorem run_call (o : Op) (k : Except ε (Res o) → Prog Op Res ε α) (s : S) :
    (call o k).run h s = (k (h o s).1).run h (h o s).2 := rfl

theorem run_lift (r : Except ε α) (s : S) : (lift r : Prog Op Res ε α).run h s = (r, s) := by
  cases r <;> rfl

theorem run_perform (o : Op) (s : S) : (perform o).run h s = h o s :=
  run_lift h _ _

/-- The run of one program after another. -/
theorem run_bind (p : Prog Op Res ε α) (f : α → Prog Op Res ε β) (s : S) :
    (p.bind f).run h s =
      match p.run h s with
      | (.ok a, s') => (f a).run h s'
      | (.error e, s') => (.error e, s') := by
  induction p generalizing s with
  | ret a => rfl
  | raise e => rfl
  | call o k ih => exact ih _ _

theorem run_bind_ok {p : Prog Op Res ε α} {f : α → Prog Op Res ε β} {s s' : S} {a : α}
    (hp : p.run h s = (.ok a, s')) : (p.bind f).run h s = (f a).run h s' := by
  rw [run_bind, hp]

/-- A run that returns went through both parts. -/
theorem run_bind_eq_ok {p : Prog Op Res ε α} {f : α → Prog Op Res ε β} {s s' : S} {b : β} :
    (p.bind f).run h s = (.ok b, s') ↔
      ∃ a s₁, p.run h s = (.ok a, s₁) ∧ (f a).run h s₁ = (.ok b, s') := by
  rw [run_bind]
  rcases p.run h s with ⟨_ | a, s₁⟩ <;> simp

theorem run_tryCatch (p : Prog Op Res ε α) (g : ε → Prog Op Res ε α) (s : S) :
    (p.tryCatch g).run h s =
      match p.run h s with
      | (.ok a, s') => (.ok a, s')
      | (.error e, s') => (g e).run h s' := by
  induction p generalizing s with
  | ret a => rfl
  | raise e => rfl
  | call o k ih => exact ih _ _

/-- A `finally` clause that ends quietly leaves the outcome as it is. -/
theorem run_tryFinally {p : Prog Op Res ε α} {fin : Prog Op Res ε Unit}
    (hfin : ∀ s, fin.run h s = (.ok (), s)) (s : S) : (p.tryFinally fin).run h s = p.run h s := by
  induction p generalizing s with
  | ret a => exact run_bind_ok h (hfin s)
  | raise e => exact run_bind_ok h (hfin s)
  | call o k ih => exact ih _ _

/-! ## The exceptions of a run -/

/-- Whatever exception the run of a program ends with is one of `E`. -/
def RaisesOnly (E : ε → Prop) (p : Prog Op Res ε α) (s : S) : Prop :=
  ∀ e s', p.run h s = (.error e, s') → E e

section RaisesOnly

variable {h} {E : ε → Prop} {s s' : S}

@[simp] theorem raisesOnly_ret (a : α) : RaisesOnly h E (ret a : Prog Op Res ε α) s := by
  intro e s' hr
  cases hr

@[simp] theorem raisesOnly_raise {e : ε} :
    RaisesOnly h E (raise e : Prog Op Res ε α) s ↔ E e := by
  constructor
  · intro hp
    exact hp e s rfl
  · intro he e' s' hr
    cases hr
    exact he

/-- A program whose run is known raises only what that run raises. -/
theorem raisesOnly_of_run {p : Prog Op Res ε α} {r : Except ε α} (hp : p.run h s = (r, s')) :
    RaisesOnly h E p s ↔ ∀ e, r = .error e → E e := by
  constructor
  · intro hr e he
    exact hr e s' (by rw [hp, he])
  · intro hr e s'' he
    rw [hp] at he
    exact hr e (congrArg Prod.fst he)

theorem raisesOnly_lift {r : Except ε α} :
    RaisesOnly h E (lift r : Prog Op Res ε α) s ↔ ∀ e, r = .error e → E e :=
  raisesOnly_of_run (run_lift h r s)

theorem raisesOnly_perform {o : Op} :
    RaisesOnly h E (perform o) s ↔ ∀ e, (h o s).1 = .error e → E e :=
  raisesOnly_of_run (run_perform h o s)

/-- One program after another raises only `E` if the first does, and the second
does from wherever the first returns. -/
theorem raisesOnly_bind {p : Prog Op Res ε α} {f : α → Prog Op Res ε β} :
    RaisesOnly h E (p.bind f) s ↔
      RaisesOnly h E p s ∧ ∀ a s', p.run h s = (.ok a, s') → RaisesOnly h E (f a) s' := by
  constructor
  · intro hp
    refine ⟨fun e s' he => ?_, fun a s₁ ha e s' he => ?_⟩
    · exact hp e s' (by rw [run_bind, he])
    · exact hp e s' (by rw [run_bind_ok h ha, he])
  · rintro ⟨hp, hf⟩ e s' he
    rw [run_bind] at he
    cases hr : p.run h s with
    | mk r s₁ =>
      rw [hr] at he
      cases r with
      | error e' =>
        cases he
        exact hp _ _ hr
      | ok a => exact hf a s₁ hr e s' he

/-- The same, where the first leaves the state as it is and returns the values
in `Q`. -/
theorem raisesOnly_bind_iff {p : Prog Op Res ε α} {f : α → Prog Op Res ε β} {Q : α → Prop}
    (hp : ∀ a s', p.run h s = (.ok a, s') ↔ Q a ∧ s = s') :
    RaisesOnly h E (p.bind f) s ↔ RaisesOnly h E p s ∧ ∀ a, Q a → RaisesOnly h E (f a) s := by
  rw [raisesOnly_bind]
  refine and_congr_right fun _ => forall_congr' fun a => ?_
  constructor
  · intro hf ha
    exact hf s ((hp a s).mpr ⟨ha, rfl⟩)
  · intro hf s' hr
    obtain ⟨ha, rfl⟩ := (hp a s').mp hr
    exact hf ha

end RaisesOnly

/-! ## Running alone, with faults -/

/-- An execution in which each operation takes effect, or raises some exception
without effect. -/
inductive Exec : Prog Op Res ε α → S → Except ε α → S → Prop
  | ret {a s} : Exec (ret a) s (.ok a) s
  | raise {e s} : Exec (raise e) s (.error e) s
  | effect {o k s r s'} : Exec (k (h o s).1) (h o s).2 r s' → Exec (call o k) s r s'
  | fault {o k s r s'} (e : ε) : Exec (k (.error e)) s r s' → Exec (call o k) s r s'

variable {h}

/-- A run is the execution without faults. -/
theorem Exec.of_run (p : Prog Op Res ε α) (s : S) : Exec h p s (p.run h s).1 (p.run h s).2 := by
  induction p generalizing s with
  | ret a => exact .ret
  | raise e => exact .raise
  | call o k ih => exact .effect (ih _ _)

theorem Exec.bind {p : Prog Op Res ε α} {f : α → Prog Op Res ε β} {s s₁ s' : S} {a : α}
    {r : Except ε β} (hp : Exec h p s (.ok a) s₁) (hf : Exec h (f a) s₁ r s') :
    Exec h (p.bind f) s r s' := by
  generalize hr : Except.ok a = r₁ at hp
  induction hp with
  | ret => cases hr; exact hf
  | raise => cases hr
  | effect _ ih => exact .effect (ih hf hr)
  | fault e _ ih => exact .fault e (ih hf hr)

/-- An execution of one program after another: the first raises, or the second
goes on from where the first ended. -/
theorem Exec.bind_inv {p : Prog Op Res ε α} {f : α → Prog Op Res ε β} {s s' : S} {r : Except ε β}
    (hx : Exec h (p.bind f) s r s') :
    (∃ e, Exec h p s (.error e) s' ∧ r = .error e) ∨
      ∃ a s₁, Exec h p s (.ok a) s₁ ∧ Exec h (f a) s₁ r s' := by
  induction p generalizing s with
  | ret a => exact .inr ⟨a, s, .ret, hx⟩
  | raise e => cases hx; exact .inl ⟨e, .raise, rfl⟩
  | call o k ih =>
    cases hx with
    | effect hx =>
      rcases ih _ hx with ⟨e, he, rfl⟩ | ⟨a, s₁, ha, hf⟩
      · exact .inl ⟨e, .effect he, rfl⟩
      · exact .inr ⟨a, s₁, .effect ha, hf⟩
    | fault e hx =>
      rcases ih _ hx with ⟨e', he, rfl⟩ | ⟨a, s₁, ha, hf⟩
      · exact .inl ⟨e', .fault e he, rfl⟩
      · exact .inr ⟨a, s₁, .fault e ha, hf⟩

/-! ## The operations a program can issue -/

/-- Every operation the program can issue, whatever the results, satisfies `A`. -/
def Only (A : Op → Prop) : Prog Op Res ε α → Prop
  | ret _ => True
  | raise _ => True
  | call o k => A o ∧ ∀ r, (k r).Only A

section Only

variable {A : Op → Prop}

@[simp] theorem only_lift (r : Except ε α) : (lift r : Prog Op Res ε α).Only A := by
  cases r <;> trivial

@[simp] theorem only_perform {o : Op} : (perform o : Prog Op Res ε _).Only A ↔ A o :=
  ⟨And.left, fun h => ⟨h, fun r => only_lift r⟩⟩

theorem Only.bind {p : Prog Op Res ε α} {f : α → Prog Op Res ε β} (hp : p.Only A)
    (hf : ∀ a, (f a).Only A) : (p.bind f).Only A := by
  induction p with
  | ret a => exact hf a
  | raise e => trivial
  | call o k ih => exact ⟨hp.1, fun r => ih r (hp.2 r)⟩

theorem Only.tryCatch {p : Prog Op Res ε α} {g : ε → Prog Op Res ε α} (hp : p.Only A)
    (hg : ∀ e, (g e).Only A) : (p.tryCatch g).Only A := by
  induction p with
  | ret a => trivial
  | raise e => exact hg e
  | call o k ih => exact ⟨hp.1, fun r => ih r (hp.2 r)⟩

theorem Only.tryFinally {p : Prog Op Res ε α} {fin : Prog Op Res ε Unit} (hp : p.Only A)
    (hf : fin.Only A) : (p.tryFinally fin).Only A := by
  induction p with
  | ret a => exact hf.bind fun _ => trivial
  | raise e => exact hf.bind fun _ => trivial
  | call o k ih => exact ⟨hp.1, fun r => ih r (hp.2 r)⟩

/-- Bounds that each hold of a program hold together. -/
theorem only_forall {ν : Type} {B : ν → Op → Prop} {p : Prog Op Res ε α}
    (hp : ∀ n, p.Only (B n)) : p.Only fun o => ∀ n, B n o := by
  induction p with
  | ret a => trivial
  | raise e => trivial
  | call o k ih => exact ⟨fun n => (hp n).1, fun r => ih r fun n => (hp n).2 r⟩

/-- A program whose operations change nothing changes nothing, faults or not. -/
theorem Exec.only_reads {p : Prog Op Res ε α} {s s' : S} {r : Except ε α}
    (hA : ∀ o s, A o → (h o s).2 = s) (hp : p.Only A) (hx : Exec h p s r s') : s' = s := by
  induction hx with
  | ret => rfl
  | raise => rfl
  | effect _ ih => rw [ih (hp.2 _), hA _ _ hp.1]
  | fault _ _ ih => exact ih (hp.2 _)

/-- What every operation keeps, the run keeps. -/
theorem Only.run_inv {p : Prog Op Res ε α} {I : S → Prop} (hp : p.Only A)
    (hI : ∀ o s, A o → I s → I (h o s).2) {s : S} (hs : I s) : I (p.run h s).2 := by
  induction p generalizing s with
  | ret a => exact hs
  | raise e => exact hs
  | call o k ih => exact ih _ (hp.2 _) (hI o s hp.1 hs)

end Only

end Prog

end Gaia
