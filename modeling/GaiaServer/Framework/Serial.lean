import GaiaServer.Framework.Pool
import Mathlib.Data.List.Nodup

/-!
# Serialisable programs

Programs that read, and write last: an operation that writes is the last one of its
program (`Prog.CommitsLast`), and what the programs read, none of them writes
(`Prog.Undisturbed`). Interleaved in any way, such programs end as one after another, in
the order in which they end (`Pool.Ends.oneByOne`).

`Pool.Ends` is an interleaving together with that order, `Prog.Runs` a program alone, with
the same faults. The induction carries the programs that have ended (`Pool.Serial`): every
other program is where reads alone have taken it, so that whatever it does from here, it
does from its start.
-/

namespace Gaia

open Function (update)

variable {Op : Type} {Res : Op → Type} {ε α β S ι : Type}

namespace Prog

/-! ## Alone, with faults -/

/-- A program alone: each operation takes effect, or raises an exception in `F`. -/
inductive Runs (h : Handler Op Res ε S) (F : ε → Prop) :
    Prog Op Res ε α → S → Except ε α → S → Prop
  | ret {a s} : Runs h F (ret a) s (.ok a) s
  | raise {e s} : Runs h F (raise e) s (.error e) s
  | effect {o k s r s'} (hx : Runs h F (k (h o s).1) (h o s).2 r s') : Runs h F (call o k) s r s'
  | fault {o k s r s' e} (he : F e) (hx : Runs h F (k (.error e)) s r s') :
    Runs h F (call o k) s r s'

variable {h : Handler Op Res ε S} {F : ε → Prop} {A W : Op → Prop} {s s' : S}

theorem Runs.lift (r : Except ε α) (s : S) : Runs h F (lift r) s r s := by
  cases r with
  | error e => exact .raise
  | ok a => exact .ret

/-- Without faults, that is the run of the program. -/
theorem runs_iff (hF : ∀ e, ¬ F e) {p : Prog Op Res ε α} {r : Except ε α} :
    Runs h F p s r s' ↔ p.run h s = (r, s') := by
  constructor
  · intro hx
    induction hx with
    | ret => rfl
    | raise => rfl
    | effect _ ih => exact ih
    | fault he _ _ => exact absurd he (hF _)
  · intro hp
    induction p generalizing s with
    | ret a => cases hp; exact .ret
    | raise e => cases hp; exact .raise
    | call o k ih => exact .effect (ih _ hp)

/-! ## Reads, then a write -/

/-- The program has ended. -/
def isEnded : Prog Op Res ε α → Bool
  | ret _ => true
  | raise _ => true
  | call .. => false

@[simp] theorem isEnded_lift (r : Except ε α) : (lift r : Prog Op Res ε α).isEnded = true := by
  cases r <;> rfl

theorem isEnded_iff {p : Prog Op Res ε α} : p.isEnded = true ↔ ∃ r, p = lift r := by
  constructor
  · intro hp
    cases p with
    | ret a => exact ⟨.ok a, rfl⟩
    | raise e => exact ⟨.error e, rfl⟩
    | call o k => cases hp
  · rintro ⟨r, rfl⟩
    exact isEnded_lift r

/-- Operations in `A`, then at most one in `W`, with which the program ends. -/
def CommitsLast (A W : Op → Prop) : Prog Op Res ε α → Prop
  | ret _ => True
  | raise _ => True
  | call o k => (A o ∧ ∀ r, (k r).CommitsLast A W) ∨ (W o ∧ ∀ r, (k r).isEnded = true)

theorem Only.commitsLast_bind {p : Prog Op Res ε α} {f : α → Prog Op Res ε β} (hp : p.Only A)
    (hf : ∀ a, (f a).CommitsLast A W) : (p.bind f).CommitsLast A W := by
  induction p with
  | ret a => exact hf a
  | raise e => trivial
  | call o k ih => exact .inl ⟨hp.1, fun r => ih r (hp.2 r)⟩

/-- What the operations in `A` see does not change, by themselves or by those in `W`. -/
structure Undisturbed (h : Handler Op Res ε S) (A W : Op → Prop) : Prop where
  reads : ∀ {o}, A o → ∀ s, (h o s).2 = s
  stable : ∀ {o o'}, A o → W o' → ∀ s, (h o (h o' s).2).1 = (h o s).1

/-- The states look the same to the operations in `A`. -/
def Agree (h : Handler Op Res ε S) (A : Op → Prop) (s s' : S) : Prop :=
  ∀ o, A o → (h o s').1 = (h o s).1

theorem Agree.refl (h : Handler Op Res ε S) (A : Op → Prop) (s : S) : Agree h A s s :=
  fun _ _ => rfl

theorem Agree.commit (hu : Undisturbed h A W) {o : Op} (ho : W o) (ha : Agree h A s s') :
    Agree h A s (h o s').2 :=
  fun _ ho' => (hu.stable ho' ho s').trans (ha _ ho')

/-- What follows a read follows it wherever the state looks the same. -/
theorem Runs.read (hu : Undisturbed h A W) {o : Op} {k : Except ε (Res o) → Prog Op Res ε α}
    (ho : A o) (ha : Agree h A s s') {r : Except ε α} {t : S}
    (hx : Runs h F (k (h o s).1) s' r t) : Runs h F (call o k) s' r t := by
  refine .effect ?_
  rwa [ha o ho, hu.reads ho]

/-- Reads end the same wherever the state looks the same, and change nothing. -/
theorem Only.run_agree (hu : Undisturbed h A W) {p : Prog Op Res ε α} (hp : p.Only A)
    (ha : Agree h A s s') : p.run h s' = ((p.run h s).1, s') := by
  induction p with
  | ret a => rfl
  | raise e => rfl
  | call o k ih =>
    rw [run_call, run_call, ha o hp.1, hu.reads hp.1, hu.reads hp.1]
    exact ih _ (hp.2 _)

end Prog

namespace Pool

open Prog (Runs CommitsLast Undisturbed Agree lift isEnded_iff)

/-- The programs of `order` have run one after another, to their ends in `P`. -/
inductive OneByOne (h : Prog.Handler Op Res ε S) (F : ε → Prop) (P₀ P : Pool Op Res ε α ι)
    (s₀ : S) : List ι → S → Prop
  | nil : OneByOne h F P₀ P s₀ [] s₀
  | snoc {order s i r s'} (ho : OneByOne h F P₀ P s₀ order s) (hx : Runs h F (P₀ i) s r s')
      (hi : P i = lift r) : OneByOne h F P₀ P s₀ (order ++ [i]) s'

variable {h : Prog.Handler Op Res ε S} {F : ε → Prop} {A W : Op → Prop}
  {P₀ P P' : Pool Op Res ε α ι} {s₀ s s' : S} {order : List ι}

theorem OneByOne.congr (ho : OneByOne h F P₀ P s₀ order s) (hP : ∀ i ∈ order, P' i = P i) :
    OneByOne h F P₀ P' s₀ order s := by
  induction ho with
  | nil => exact .nil
  | @snoc order s i r s' ho hx hi ih =>
    refine .snoc (ih fun j hj => hP j (by simp [hj])) hx ?_
    rw [hP i (by simp), hi]

/-- The state after the programs of `order`, one after another, every operation taking
effect. -/
def afterAll (h : Prog.Handler Op Res ε S) (P₀ : Pool Op Res ε α ι) (s₀ : S) (order : List ι) : S :=
  order.foldl (fun s i => ((P₀ i).run h s).2) s₀

@[simp] theorem afterAll_append (h : Prog.Handler Op Res ε S) (P₀ : Pool Op Res ε α ι) (s₀ : S)
    (order : List ι) (i : ι) :
    afterAll h P₀ s₀ (order ++ [i]) = ((P₀ i).run h (afterAll h P₀ s₀ order)).2 := by
  rw [afterAll, List.foldl_append]
  rfl

/-- Without faults, each program has ended as its run does after those before it. -/
theorem OneByOne.run (hF : ∀ e, ¬ F e) (ho : OneByOne h F P₀ P s₀ order s) :
    s = afterAll h P₀ s₀ order ∧ ∀ pre i post, order = pre ++ i :: post →
      P i = lift ((P₀ i).run h (afterAll h P₀ s₀ pre)).1 := by
  induction ho with
  | nil => exact ⟨rfl, fun pre i post he => absurd he (by simp)⟩
  | @snoc order s i r s' ho hx hi ih =>
    have hrun := (Prog.runs_iff hF).mp hx
    obtain ⟨rfl, ih⟩ := ih
    refine ⟨by rw [afterAll_append, hrun], fun pre j post he => ?_⟩
    rcases List.eq_nil_or_concat post with rfl | ⟨post', l, rfl⟩
    · obtain ⟨rfl, hj⟩ := List.append_inj' he rfl
      obtain rfl := List.singleton_inj.mp hj
      rw [hi, hrun]
    · rw [List.concat_eq_append, ← List.cons_append, ← List.append_assoc] at he
      exact ih pre j post' (List.append_inj' he rfl).1

variable [DecidableEq ι]

/-- The points of an interleaving, with the programs that have ended, in the order in which
they have. -/
inductive Ends (h : Prog.Handler Op Res ε S) (F : ε → Prop) (P₀ : Pool Op Res ε α ι) (s₀ : S) :
    List ι → Pool Op Res ε α ι → S → Prop
  | start : Ends h F P₀ s₀ [] P₀ s₀
  | effect {order P s i o k} (hr : Ends h F P₀ s₀ order P s) (hi : P i = .call o k) :
      Ends h F P₀ s₀ (if (k (h o s).1).isEnded then order ++ [i] else order)
        (update P i (k (h o s).1)) (h o s).2
  | fault {order P s i o k e} (hr : Ends h F P₀ s₀ order P s) (hi : P i = .call o k) (he : F e) :
      Ends h F P₀ s₀ (if (k (.error e)).isEnded then order ++ [i] else order)
        (update P i (k (.error e))) s

/-- Every interleaving has such an order. -/
theorem reach_iff_ends : Reach h F P₀ s₀ P s ↔ ∃ order, Ends h F P₀ s₀ order P s := by
  constructor
  · intro hr
    induction hr with
    | start => exact ⟨[], .start⟩
    | step _ hs ih =>
      obtain ⟨order, ho⟩ := ih
      cases hs with
      | effect hi => exact ⟨_, ho.effect hi⟩
      | fault hi he => exact ⟨_, ho.fault hi he⟩
  · rintro ⟨order, ho⟩
    induction ho with
    | start => exact .start
    | effect _ hi ih => exact ih.step (.effect hi)
    | fault _ hi he ih => exact ih.step (.fault hi he)

/-- A program that has not ended runs to its end while the others wait. -/
theorem Ends.run_thread (hr : Ends h F P₀ s₀ order P s) {i : ι} (hi : (P i).isEnded = false) :
    Ends h F P₀ s₀ (order ++ [i]) (update P i (lift ((P i).run h s).1)) ((P i).run h s).2 := by
  generalize hp : P i = p at hi
  induction p generalizing P s with
  | ret a => cases hi
  | raise e => cases hi
  | call o k ih =>
    have hr' := hr.effect hp
    by_cases hk : (k (h o s).1).isEnded = true
    · obtain ⟨r, he⟩ := isEnded_iff.mp hk
      rw [if_pos hk, he] at hr'
      rwa [Prog.run_call, he, Prog.run_lift]
    · have hk := Bool.eq_false_iff.mpr hk
      rw [hk] at hr'
      have := ih _ hr' (Function.update_self ..) hk
      rwa [Function.update_idem] at this

/-! ## The induction -/

/-- The programs of `order` have run one after another, and the others have read. -/
structure Serial (h : Prog.Handler Op Res ε S) (F : ε → Prop) (A W : Op → Prop)
    (P₀ : Pool Op Res ε α ι) (s₀ : S) (order : List ι) (P : Pool Op Res ε α ι) (s : S) : Prop where
  nodup : order.Nodup
  ran : OneByOne h F P₀ P s₀ order s
  ended : ∀ i ∈ order, (P i).isEnded = true
  agree : Agree h A s₀ s
  late : ∀ i, i ∉ order → (P i).CommitsLast A W
  same : ∀ i, i ∉ order → ∀ s', Agree h A s₀ s' → ∀ r t, Runs h F (P i) s' r t →
    Runs h F (P₀ i) s' r t

/-- A program that has not ended goes on as `p`, without writing. -/
theorem Serial.goOn (hs : Serial h F A W P₀ s₀ order P s) {i : ι} (hio : i ∉ order)
    {p : Prog Op Res ε α} (hp : p.CommitsLast A W)
    (hsame : ∀ s', Agree h A s₀ s' → ∀ r t, Runs h F p s' r t → Runs h F (P i) s' r t) :
    Serial h F A W P₀ s₀ order (update P i p) s := by
  have hne : ∀ j ∈ order, j ≠ i := fun j hj hji => hio (hji ▸ hj)
  refine ⟨hs.nodup, hs.ran.congr fun j hj => Function.update_of_ne (hne j hj) .., fun j hj => ?_,
    hs.agree, fun j hj => ?_, fun j hj => ?_⟩
  · rw [Function.update_of_ne (hne j hj)]
    exact hs.ended j hj
  · by_cases hji : j = i
    · rwa [hji, Function.update_self]
    · rw [Function.update_of_ne hji]
      exact hs.late j hj
  · by_cases hji : j = i
    · rw [hji, Function.update_self]
      exact fun s' ha r t hx => hs.same i hio s' ha r t (hsame s' ha r t hx)
    · rw [Function.update_of_ne hji]
      exact hs.same j hj

/-- A program ends, as it does from its start. -/
theorem Serial.append (hs : Serial h F A W P₀ s₀ order P s) {i : ι} (hio : i ∉ order)
    {r : Except ε α} (hx : Runs h F (P i) s r s') (ha : Agree h A s₀ s') :
    Serial h F A W P₀ s₀ (order ++ [i]) (update P i (lift r)) s' := by
  have hne : ∀ j ∈ order, j ≠ i := fun j hj hji => hio (hji ▸ hj)
  have hout : ∀ {j}, j ∉ order ++ [i] → j ∉ order ∧ j ≠ i := by simp
  refine ⟨?_, ?_, fun j hj => ?_, ha, fun j hj => ?_, fun j hj => ?_⟩
  · exact List.nodup_append.mpr ⟨hs.nodup, List.nodup_singleton _, fun a ha b hb => by
      rw [List.mem_singleton.mp hb]
      exact hne a ha⟩
  · refine .snoc (hs.ran.congr fun j hj => Function.update_of_ne (hne j hj) ..)
      (hs.same i hio s hs.agree r s' hx) (Function.update_self ..)
  · by_cases hji : j = i
    · rw [hji, Function.update_self, Prog.isEnded_lift]
    · rw [Function.update_of_ne hji]
      exact hs.ended j ((List.mem_append.mp hj).resolve_right (by simpa using hji))
  · rw [Function.update_of_ne (hout hj).2]
    exact hs.late j (hout hj).1
  · rw [Function.update_of_ne (hout hj).2]
    exact hs.same j (hout hj).1

omit [DecidableEq ι] in
/-- A program of the order does not go on. -/
theorem Serial.not_mem (hs : Serial h F A W P₀ s₀ order P s) {i : ι} {o : Op}
    {k : Except ε (Res o) → Prog Op Res ε α} (hi : P i = .call o k) : i ∉ order := by
  intro hmem
  have := hs.ended i hmem
  rw [hi] at this
  cases this

/-- A read of a program that has not ended. -/
theorem Serial.read (hu : Undisturbed h A W) (hs : Serial h F A W P₀ s₀ order P s) {i : ι} {o : Op}
    {k : Except ε (Res o) → Prog Op Res ε α} (hi : P i = .call o k) (ho : A o)
    {p : Prog Op Res ε α} (hp : p = k (h o s).1 ∨ ∃ e, F e ∧ p = k (.error e))
    (hk : p.CommitsLast A W) :
    Serial h F A W P₀ s₀ (if p.isEnded then order ++ [i] else order) (update P i p) s := by
  have hio := hs.not_mem hi
  have hsame : ∀ s', Agree h A s s' → ∀ r t, Runs h F p s' r t → Runs h F (P i) s' r t := by
    intro s' ha r t hx
    rw [hi]
    rcases hp with rfl | ⟨e, he, rfl⟩
    · exact .read hu ho ha hx
    · exact .fault he hx
  by_cases hend : p.isEnded = true
  · obtain ⟨r, rfl⟩ := isEnded_iff.mp hend
    rw [if_pos hend]
    exact hs.append hio (hsame s (.refl h A s) r s (.lift r s)) hs.agree
  · rw [if_neg hend]
    refine hs.goOn hio hk fun s' ha => hsame s' fun o' ho' => ?_
    rw [ha o' ho', hs.agree o' ho']

/-- A write, or its fault, which ends the program. -/
theorem Serial.commit (hs : Serial h F A W P₀ s₀ order P s) {i : ι} {o : Op}
    {k : Except ε (Res o) → Prog Op Res ε α} (hi : P i = .call o k) {p : Prog Op Res ε α}
    (hp : p = k (h o s).1 ∧ s' = (h o s).2 ∨ ∃ e, F e ∧ p = k (.error e) ∧ s' = s)
    (hend : p.isEnded = true) (ha : Agree h A s₀ s') :
    Serial h F A W P₀ s₀ (if p.isEnded then order ++ [i] else order) (update P i p) s' := by
  obtain ⟨r, rfl⟩ := isEnded_iff.mp hend
  rw [if_pos hend]
  refine hs.append (hs.not_mem hi) ?_ ha
  rw [hi]
  rcases hp with ⟨he, rfl⟩ | ⟨e, he, hk, rfl⟩
  · exact .effect (he ▸ .lift r _)
  · exact .fault he (hk ▸ .lift r _)

theorem Ends.serial (hu : Undisturbed h A W) (hP : ∀ i, (P₀ i).CommitsLast A W)
    (hr : Ends h F P₀ s₀ order P s) : Serial h F A W P₀ s₀ order P s := by
  induction hr with
  | start => exact ⟨List.nodup_nil, .nil, by simp, .refl h A s₀, fun i _ => hP i,
      fun _ _ _ _ _ _ hx => hx⟩
  | @effect order P s i o k _ hi hs =>
    have hl := hs.late i (hs.not_mem hi)
    rw [hi] at hl
    rcases hl with ⟨ho, hk⟩ | ⟨ho, hk⟩
    · have hread := hs.read hu hi ho (.inl rfl) (hk _)
      rwa [hu.reads ho]
    · exact hs.commit hi (.inl ⟨rfl, rfl⟩) (hk _) (hs.agree.commit hu ho)
  | @fault order P s i o k e _ hi he hs =>
    have hl := hs.late i (hs.not_mem hi)
    rw [hi] at hl
    rcases hl with ⟨ho, hk⟩ | ⟨ho, hk⟩
    · exact hs.read hu hi ho (.inr ⟨e, he, rfl⟩) (hk _)
    · exact hs.commit hi (.inr ⟨e, he, rfl, rfl⟩) (hk _) hs.agree

/-- Programs that write last, interleaved in any way, have run one after another, in the
order in which they have ended. -/
theorem Ends.oneByOne (hu : Undisturbed h A W) (hP : ∀ i, (P₀ i).CommitsLast A W)
    (hr : Ends h F P₀ s₀ order P s) : order.Nodup ∧ OneByOne h F P₀ P s₀ order s :=
  ⟨(hr.serial hu hP).nodup, (hr.serial hu hP).ran⟩

/-- Of programs none of which has ended at the start, those that have are in the order. -/
theorem Ends.mem_iff (h₀ : ∀ i, (P₀ i).isEnded = false) (hr : Ends h F P₀ s₀ order P s) (i : ι) :
    i ∈ order ↔ (P i).isEnded = true := by
  have hstep : ∀ {order : List ι} {P : Pool Op Res ε α ι} (j : ι) (p : Prog Op Res ε α) {o k},
      P j = .call o k → (i ∈ order ↔ (P i).isEnded = true) →
      (i ∈ (if p.isEnded then order ++ [j] else order) ↔ (update P j p i).isEnded = true) := by
    intro order P j p o k hj ih
    by_cases hij : i = j
    · subst hij
      have : i ∉ order := by rw [ih, hj]; exact Bool.false_ne_true
      rw [Function.update_self]
      cases p.isEnded <;> simp [this]
    · rw [Function.update_of_ne hij, ← ih]
      cases p.isEnded <;> simp [hij]
  induction hr with
  | start => simp [h₀ i]
  | effect _ hi ih => exact hstep _ _ hi ih
  | fault _ hi _ ih => exact hstep _ _ hi ih

end Pool

end Gaia
