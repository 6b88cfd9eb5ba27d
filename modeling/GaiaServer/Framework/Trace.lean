import GaiaServer.Framework.Pool

/-!
# What interleaved programs have done

The trace of a pool of programs: which program issued which operation, in the order
in which the operations took effect (`Pool.Traced`). The trace determines the state
(`Traced.state_eq`), and a program that has returned did so along it: it got each
result from the state at that point of the trace, or a fault (`Prog.Along`,
`Traced.along`).

* `Along.bind_inv`, `Along.perform_inv`, `Along.lift_inv`: what a program has done,
  part by part;
* `Traced.only`: operations that each program can issue are all that it has issued;
* `Traced.run_thread`: a program runs to its end while the others wait;
* `Prog.trace_bind`: the operations of a program that runs alone, part by part.
-/

namespace Gaia

open Function (update)

variable {Op : Type} {Res : Op → Type} {ε α β S ι : Type}

namespace Pool

/-- The state after the operations of a trace. -/
def after (h : Prog.Handler Op Res ε S) (s₀ : S) (t : List (ι × Op)) : S :=
  t.foldl (fun s x => (h x.2 s).2) s₀

theorem after_concat (h : Prog.Handler Op Res ε S) (s₀ : S) (t : List (ι × Op)) (x : ι × Op) :
    after h s₀ (t ++ [x]) = (h x.2 (after h s₀ t)).2 := by
  simp [after]

end Pool

namespace Prog

open Pool (after)

/-- Program `i`, from point `t` of a trace to a later point, returns a value: each of
its operations takes effect at some point between, or raises an exception in `F`. -/
inductive Along (h : Handler Op Res ε S) (F : ε → Prop) (s₀ : S) (i : ι) :
    Prog Op Res ε α → List (ι × Op) → α → List (ι × Op) → Prop
  | ret {a t u} : Along h F s₀ i (ret a) t a (t ++ u)
  | effect {o k t u a t'}
      (hk : Along h F s₀ i (k (h o (after h s₀ (t ++ u))).1) (t ++ u ++ [(i, o)]) a t') :
      Along h F s₀ i (call o k) t a t'
  | fault {o k e t a t'} (he : F e) (hk : Along h F s₀ i (k (.error e)) t a t') :
      Along h F s₀ i (call o k) t a t'

namespace Along

variable {h : Handler Op Res ε S} {F : ε → Prop} {s₀ : S} {i : ι} {t t' u : List (ι × Op)}

theorem refl {a : α} : Along h F s₀ i (.ret a) t a t := by
  have hret : Along h F s₀ i (.ret a) t a (t ++ []) := .ret
  rwa [List.append_nil] at hret

/-- Operations of the others may come before. -/
theorem earlier {p : Prog Op Res ε α} {a : α} (hp : Along h F s₀ i p (t ++ u) a t') :
    Along h F s₀ i p t a t' := by
  generalize ht : t ++ u = t₁ at hp
  induction hp generalizing t u with
  | ret =>
    rw [← ht, List.append_assoc]
    exact .ret
  | effect hk _ =>
    rw [← ht, List.append_assoc t] at hk
    exact .effect hk
  | fault he _ ih => exact .fault he (ih ht)

theorem bind_inv {p : Prog Op Res ε α} {f : α → Prog Op Res ε β} {b : β}
    (hp : Along h F s₀ i (p.bind f) t b t') :
    ∃ a t₁, Along h F s₀ i p t a t₁ ∧ Along h F s₀ i (f a) t₁ b t' := by
  induction p generalizing t with
  | ret a => exact ⟨a, t, .refl, hp⟩
  | raise e => cases hp
  | call o k ih =>
    cases hp with
    | effect hk =>
      obtain ⟨a, t₁, ha, hf⟩ := ih _ hk
      exact ⟨a, t₁, .effect ha, hf⟩
    | fault he hk =>
      obtain ⟨a, t₁, ha, hf⟩ := ih _ hk
      exact ⟨a, t₁, .fault he ha, hf⟩

theorem lift_inv {r : Except ε α} {a : α} (hp : Along h F s₀ i (lift r) t a t') :
    r = .ok a ∧ ∃ u, t' = t ++ u := by
  cases r with
  | error e => cases hp
  | ok a' =>
    cases hp with
    | ret => exact ⟨rfl, _, rfl⟩

theorem ret_inv {a a' : α} (hp : Along h F s₀ i (.ret a') t a t') :
    a' = a ∧ ∃ u, t' = t ++ u := by
  cases hp with
  | ret => exact ⟨rfl, _, rfl⟩

/-- An operation that has returned took effect. -/
theorem perform_inv {o : Op} {a : Res o} (hp : Along h F s₀ i (perform o) t a t') :
    ∃ u v, t' = t ++ u ++ (i, o) :: v ∧ (h o (after h s₀ (t ++ u))).1 = .ok a := by
  cases hp with
  | effect hk =>
    obtain ⟨hr, v, rfl⟩ := lift_inv hk
    exact ⟨_, v, by simp, hr⟩
  | fault he hk => exact absurd (lift_inv hk).1 nofun

end Along

/-- The operations of a program that runs alone. -/
def trace (h : Handler Op Res ε S) : Prog Op Res ε α → S → List Op
  | ret _, _ => []
  | raise _, _ => []
  | call o k, s => o :: (k (h o s).1).trace h (h o s).2

section Alone

variable (h : Handler Op Res ε S)

theorem trace_lift (r : Except ε α) (s : S) : (lift r : Prog Op Res ε α).trace h s = [] := by
  cases r <;> rfl

theorem trace_perform (o : Op) (s : S) : (perform o).trace h s = [o] :=
  congrArg (o :: ·) (trace_lift h _ _)

/-- One program after another: the operations of the second follow if the first
returns. -/
theorem trace_bind (p : Prog Op Res ε α) (f : α → Prog Op Res ε β) (s : S) :
    (p.bind f).trace h s = p.trace h s ++
      match p.run h s with
      | (.ok a, s') => (f a).trace h s'
      | (.error _, _) => [] := by
  induction p generalizing s with
  | ret a => rfl
  | raise e => rfl
  | call o k ih => exact congrArg (o :: ·) (ih _ _)

theorem trace_tryCatch (p : Prog Op Res ε α) (g : ε → Prog Op Res ε α) (s : S) :
    (p.tryCatch g).trace h s = p.trace h s ++
      match p.run h s with
      | (.ok _, _) => []
      | (.error e, s') => (g e).trace h s' := by
  induction p generalizing s with
  | ret a => rfl
  | raise e => rfl
  | call o k ih => exact congrArg (o :: ·) (ih _ _)

/-- Every operation of a run is one that the program can issue. -/
theorem Only.mem_trace {A : Op → Prop} {p : Prog Op Res ε α} (hp : p.Only A) {s : S} {o : Op}
    (ho : o ∈ p.trace h s) : A o := by
  induction p generalizing s with
  | ret a => exact absurd ho List.not_mem_nil
  | raise e => exact absurd ho List.not_mem_nil
  | call o' k ih =>
    rcases List.mem_cons.mp ho with rfl | ho
    · exact hp.1
    · exact ih _ (hp.2 _) ho

end Alone

end Prog

namespace Pool

variable [DecidableEq ι]

/-- The points an interleaving of `P₀` from `s₀` can reach, with the operations that
have taken effect. -/
inductive Traced (h : Prog.Handler Op Res ε S) (F : ε → Prop) (P₀ : Pool Op Res ε α ι) (s₀ : S) :
    List (ι × Op) → Pool Op Res ε α ι → S → Prop
  | start : Traced h F P₀ s₀ [] P₀ s₀
  | effect {t P s i o k} : Traced h F P₀ s₀ t P s → P i = .call o k →
      Traced h F P₀ s₀ (t ++ [(i, o)]) (update P i (k (h o s).1)) (h o s).2
  | fault {t P s i o k e} : Traced h F P₀ s₀ t P s → P i = .call o k → F e →
      Traced h F P₀ s₀ t (update P i (k (.error e))) s

namespace Traced

variable {h : Prog.Handler Op Res ε S} {F : ε → Prop} {P₀ P : Pool Op Res ε α ι} {s₀ s : S}
  {t : List (ι × Op)}

theorem state_eq (ht : Traced h F P₀ s₀ t P s) : s = after h s₀ t := by
  induction ht with
  | start => rfl
  | effect _ _ ih => rw [after_concat, ← ih]
  | fault _ _ _ ih => exact ih

theorem trans {P' : Pool Op Res ε α ι} {s' : S} {u : List (ι × Op)} (ht : Traced h F P₀ s₀ t P s)
    (hu : Traced h F P s u P' s') : Traced h F P₀ s₀ (t ++ u) P' s' := by
  induction hu with
  | start => rwa [List.append_nil]
  | effect _ hi ih =>
    rw [← List.append_assoc]
    exact ih.effect hi
  | fault _ hi he ih => exact ih.fault hi he

/-- What each program can issue bounds what it has issued. -/
theorem only {A : ι → Op → Prop} (hA : ∀ i, (P₀ i).Only (A i)) (ht : Traced h F P₀ s₀ t P s) :
    (∀ i, (P i).Only (A i)) ∧ ∀ x ∈ t, A x.1 x.2 := by
  induction ht with
  | start => exact ⟨hA, fun _ hx => absurd hx List.not_mem_nil⟩
  | @effect t P s i o k _ hi ih =>
    obtain ⟨hP, hall⟩ := ih
    have ho : A i o ∧ ∀ r, (k r).Only (A i) := by
      have hc := hP i
      rwa [hi] at hc
    refine ⟨(Function.forall_update_iff P fun j p => p.Only (A j)).mpr ⟨ho.2 _, fun j _ => hP j⟩,
      fun x hx => ?_⟩
    rcases List.mem_append.mp hx with hx | hx
    · exact hall x hx
    · rw [List.mem_singleton.mp hx]
      exact ho.1
  | @fault t P s i o k e _ hi _ ih =>
    obtain ⟨hP, hall⟩ := ih
    have ho : A i o ∧ ∀ r, (k r).Only (A i) := by
      have hc := hP i
      rwa [hi] at hc
    exact ⟨(Function.forall_update_iff P fun j p => p.Only (A j)).mpr ⟨ho.2 _, fun j _ => hP j⟩,
      hall⟩

/-- What a program goes on to return from the end of a trace, it returns along it. -/
theorem along_of (ht : Traced h F P₀ s₀ t P s) {i : ι} {a : α} {t' : List (ι × Op)}
    (hp : Prog.Along h F s₀ i (P i) t a t') : Prog.Along h F s₀ i (P₀ i) [] a t' := by
  induction ht with
  | start => exact hp
  | @effect t P s j o k ht hj ih =>
    by_cases hij : i = j
    · subst hij
      rw [Function.update_self, ht.state_eq] at hp
      refine ih ?_
      rw [hj]
      exact .effect (u := []) (by rwa [List.append_nil])
    · rw [Function.update_of_ne hij] at hp
      exact ih hp.earlier
  | @fault t P s j o k e _ hj he ih =>
    by_cases hij : i = j
    · subst hij
      rw [Function.update_self] at hp
      refine ih ?_
      rw [hj]
      exact .fault he hp
    · rw [Function.update_of_ne hij] at hp
      exact ih hp

/-- A program that has returned did so along the trace. -/
theorem along (ht : Traced h F P₀ s₀ t P s) {i : ι} {a : α} (hi : P i = .ret a) :
    Prog.Along h F s₀ i (P₀ i) [] a t := by
  refine ht.along_of ?_
  rw [hi]
  exact .refl

/-- A program runs to its end while the others wait. -/
theorem run_thread (ht : Traced h F P₀ s₀ t P s) (i : ι) :
    Traced h F P₀ s₀ (t ++ ((P i).trace h s).map (i, ·))
      (update P i (.lift ((P i).run h s).1)) ((P i).run h s).2 := by
  generalize hp : P i = p
  induction p generalizing t P s with
  | ret a =>
    rw [Prog.trace, List.map_nil, List.append_nil, Prog.run_ret, Prog.lift_ok, ← hp,
      Function.update_eq_self]
    exact ht
  | raise e =>
    rw [Prog.trace, List.map_nil, List.append_nil, Prog.run_raise, Prog.lift_error, ← hp,
      Function.update_eq_self]
    exact ht
  | call o k ih =>
    have hstep := ih _ (ht.effect hp) (Function.update_self ..)
    rw [Function.update_idem, List.append_assoc] at hstep
    exact hstep

end Traced

end Pool

end Gaia
